import UMail.Storage.Isolation
import Mathlib.Data.List.Nodup

namespace UMail.Storage

open Std (ExtTreeMap ExtTreeSet)
open Fallible (ok_of_bind)

theorem getNextModSeq_ok {env : Env} {db db' : Database} {user mailbox : Bytes} {modSeq : UInt64}
    (h : (do
      let b ← ensureUIDValidityTx env.now db (mailboxKey user mailbox) (db.recordOrNew user mailbox)
      .ok (b.bumpModSeq.1, db.putMailbox user mailbox b.bumpModSeq.2)) = Except.ok (modSeq, db')) :
    ∃ b, db' = db.putMailbox user mailbox b := by
  obtain ⟨b, -, h⟩ := ok_of_bind h
  cases h
  exact ⟨_, rfl⟩

section Frame

-- What a transaction for one user leaves of another.
structure Spares (user : Bytes) (db db' : Database) : Prop where
  record : ∀ mailbox, db'.record user mailbox = db.record user mailbox
  rows : ∀ mailbox, db'.messagesOf user mailbox = db.messagesOf user mailbox
  grants : ∀ mailbox grantee, db'.acl[aclKey user mailbox grantee]? =
    db.acl[aclKey user mailbox grantee]?

variable {db db₁ db₂ : Database} {user other : Bytes}

theorem Spares.refl (other : Bytes) (db : Database) : Spares other db db :=
  ⟨fun _ => rfl, fun _ => rfl, fun _ _ => rfl⟩

theorem Spares.trans (h : Spares other db db₁) (h' : Spares other db₁ db₂) :
    Spares other db db₂ :=
  ⟨fun m => (h'.record m).trans (h.record m), fun m => (h'.rows m).trans (h.rows m),
    fun m g => (h'.grants m g).trans (h.grants m g)⟩

theorem spares_update {α : Type} {env : Env} {tx : Database → Except StorageError (α × Database)}
    (htx : ∀ value db', tx db = .ok (value, db') → Spares other db db') :
    Spares other db (db.update env tx).2 := by
  rcases update_snd with h | ⟨_, value, h⟩
  · rw [h]
    exact .refl other db
  · exact htx value _ h

variable (hne : user ≠ other)
include hne

section Written

variable (db : Database) (mailbox : Bytes)

theorem spares_putMailbox (record : MailboxRecord) :
    Spares other db (db.putMailbox user mailbox record) :=
  ⟨fun m => by simp [hne], fun _ => rfl, fun _ _ => rfl⟩

theorem spares_putMessages (rows : ExtTreeMap UInt32 MessageMetadata) :
    Spares other db (db.putMessages user mailbox rows) :=
  ⟨fun _ => rfl, fun m => by simp [hne], fun _ _ => rfl⟩

theorem spares_dropMailbox : Spares other db (db.dropMailbox user mailbox) :=
  ⟨fun m => by simp [hne], fun m => by simp [hne], fun _ _ => rfl⟩

omit hne in
theorem spares_recordUIDValidityFloorTx (key : Bytes) :
    Spares other db (recordUIDValidityFloorTx db key) :=
  ⟨fun m => by simp, fun m => by simp,
    fun m g => by rw [acl_recordUIDValidityFloorTx.1]⟩

theorem spares_deleteACLTx : Spares other db (deleteACLTx user mailbox db) := by
  refine ⟨fun _ => rfl, fun _ => rfl, fun m g => ?_⟩
  rw [deleteACLTx_acl]
  have hkeep : ∀ entry : ACLEntry, aclKey other m g ≠ aclKey user mailbox entry.grantee :=
    fun entry hkey => hne (aclKey_owner hkey).symm
  cases db.acl[aclKey other m g]? with
  | none => rfl
  | some entry => simp [hkeep entry]

theorem spares_moveACLTx (oldName newName : Bytes) :
    Spares other db (moveACLTx user oldName newName db) := by
  refine ⟨fun _ => rfl, fun _ => rfl, fun m g => acl_untouched rfl fun entry => ?_⟩
  exact ⟨fun hkey => hne (aclKey_owner hkey), fun hkey => hne (aclKey_owner hkey)⟩

theorem spares_deleteMailboxTx : Spares other db (deleteMailboxTx user mailbox db) :=
  (spares_recordUIDValidityFloorTx db _).trans (spares_dropMailbox hne _ mailbox)

theorem spares_deleteMailbox (env : Env) :
    Spares other db (db.deleteMailbox env user mailbox).2 := by
  unfold Database.deleteMailbox
  split_ifs with hinbox hfault hcleanup
  · exact .refl other db
  · exact .refl other db
  · exact (spares_deleteMailboxTx hne db mailbox).trans (spares_deleteACLTx hne _ mailbox)
  · exact spares_deleteMailboxTx hne db mailbox

theorem spares_raiseHighestModSeqTx (v : UInt64) :
    Spares other db (raiseHighestModSeqTx user mailbox v db) := by
  unfold raiseHighestModSeqTx
  split_ifs
  · exact .refl other db
  split
  · exact .refl other db
  · split_ifs
    · exact .refl other db
    · exact spares_putMailbox hne db mailbox _

theorem spares_raiseUIDNextTx (uid : UInt32) :
    Spares other db (raiseUIDNextTx user mailbox uid db) := by
  unfold raiseUIDNextTx
  split
  · exact .refl other db
  · split_ifs
    · exact spares_putMailbox hne db mailbox _
    · exact .refl other db

theorem spares_replaceModSeqTx (previous : Option MessageMetadata)
    (modSeq : UInt64) : Spares other db (replaceModSeqTx user mailbox previous modSeq db).2 := by
  unfold replaceModSeqTx
  split
  · exact .refl other db
  · split_ifs
    · exact (spares_raiseHighestModSeqTx hne db mailbox _).trans (spares_putMailbox hne _ mailbox _)
    · exact .refl other db

theorem spares_storeMessageMetadataTx (uid : UInt32)
    (metadata : MessageMetadata) :
    Spares other db (storeMessageMetadataTx user mailbox uid metadata db) := by
  exact (((spares_replaceModSeqTx hne db mailbox _ _).trans
    (spares_raiseHighestModSeqTx hne _ mailbox _)).trans (spares_raiseUIDNextTx hne _ mailbox uid)).trans
      (spares_putMessages hne _ mailbox _)

theorem spares_deleteMessageTx (uid : UInt32) :
    Spares other db (deleteMessageTx user mailbox uid db) := by
  unfold deleteMessageTx
  split
  · exact .refl other db
  · exact spares_putMessages hne db mailbox _

theorem spares_getNextModSeq (env : Env) :
    Spares other db (db.getNextModSeq env user mailbox).2 := by
  refine spares_update fun modSeq db' h => ?_
  obtain ⟨b, rfl⟩ := getNextModSeq_ok h
  exact spares_putMailbox hne db mailbox _

end Written

variable {now : Int} {mailbox : Bytes} {value : Unit} {db' : Database} {uid : UInt32}

theorem spares_createMailboxTx (h : createMailboxTx now user mailbox db = .ok (value, db')) :
    Spares other db db' := by
  obtain ⟨b, _, rfl⟩ := createMailboxTx_ok h
  exact (spares_putMailbox hne db mailbox _).trans (spares_putMessages hne _ mailbox _)

theorem spares_renameMailboxTx {oldName newName : Bytes}
    (h : renameMailboxTx now user oldName newName db = .ok (value, db')) : Spares other db db' := by
  unfold renameMailboxTx at h
  split at h
  · cases h
  split at h
  · obtain ⟨uv, -, h⟩ := ok_of_bind h
    cases h
    exact (spares_putMailbox hne db newName _).trans (spares_putMessages hne _ newName _)
  cases h
  refine Spares.trans ?_ (spares_moveACLTx hne _ oldName newName)
  refine Spares.trans ?_ (spares_dropMailbox hne _ oldName)
  refine Spares.trans ?_ (spares_recordUIDValidityFloorTx _ _)
  split
  · exact spares_putMailbox hne db newName _
  · exact (spares_putMailbox hne db newName _).trans (spares_putMessages hne _ newName _)

theorem spares_updateMessageMetadataFuncTx {fn : MessageMetadata → Option MessageMetadata}
    (h : updateMessageMetadataFuncTx user mailbox uid fn db = .ok (value, db')) :
    Spares other db db' := by
  unfold updateMessageMetadataFuncTx at h
  split at h
  · cases h
    exact .refl other db
  split at h
  · cases h
    exact .refl other db
  split at h
  · cases h
  · cases h
    exact (spares_putMailbox hne db mailbox _).trans (spares_putMessages hne _ mailbox _)

theorem spares_getNextUIDTx (h : getNextUIDTx now user mailbox db = .ok (uid, db')) :
    Spares other db db' := by
  obtain ⟨b, _, _, _, rfl⟩ := getNextUIDTx_ok h
  exact spares_putMailbox hne db mailbox _

omit hne

theorem spares_apply {op : Op} (env : Env) (db : Database) (hne : op.user ≠ other)
    (hpurge : ∀ purged, op ≠ .purgeUser purged) : Spares other db (op.apply env db) := by
  cases op with
  | createMailbox user mailbox => exact spares_update fun _ _ h => spares_createMailboxTx hne h
  | deleteMailbox user mailbox => exact spares_deleteMailbox hne db mailbox env
  | renameMailbox user oldName newName =>
    simp only [Op.apply, Database.renameMailbox]
    split_ifs
    · exact .refl other db
    · exact spares_update fun _ _ h => spares_renameMailboxTx hne h
  | getNextUID user mailbox => exact spares_update fun _ _ h => spares_getNextUIDTx hne h
  | getNextModSeq user mailbox => exact spares_getNextModSeq hne db mailbox env
  | storeMessageMetadata user mailbox uid metadata =>
    rcases metadata with _ | metadata
    · exact .refl other db
    refine spares_update fun _ db' h => ?_
    cases h
    exact spares_storeMessageMetadataTx hne db mailbox uid _
  | updateMessageMetadataFunc user mailbox uid fn =>
    exact spares_update fun _ _ h => spares_updateMessageMetadataFuncTx hne h
  | deleteMessage user mailbox uid =>
    refine spares_update fun _ db' h => ?_
    cases h
    exact spares_deleteMessageTx hne db mailbox uid
  | purgeUser user => exact absurd rfl (hpurge user)

theorem acl_purgeUserTx (db : Database) (user : Bytes) :
    (purgeUserTx user db).acl = db.acl.filter fun key entry =>
      !((bytes "acl:" ++ keyUser user ++ [colon]).isPrefixOf key || entry.grantee == user) := by
  have hfold : ∀ keys : List Bytes, ∀ db : Database, (keys.foldl purgeMailboxTx db).acl = db.acl := by
    intro keys
    induction keys with
    | nil => exact fun _ => rfl
    | cons key keys ih =>
      intro db
      rw [List.foldl_cons, ih]
      exact acl_recordUIDValidityFloorTx.1
  simp only [purgeUserTx, hfold]

theorem grants_purgeUserTx (hne : user ≠ other) (grantee : Bytes) :
    (purgeUserTx user db).acl[aclKey other mailbox grantee]? =
      db.acl[aclKey other mailbox grantee]?.filter fun entry => !(entry.grantee == user) := by
  have howned : (bytes "acl:" ++ keyUser user ++ [colon]).isPrefixOf (aclKey other mailbox grantee) =
      false := by
    rw [Bool.eq_false_iff]
    intro h
    obtain ⟨rest, hrest⟩ := List.isPrefixOf_iff_prefix.mp h
    simp only [aclKey, aclOwnerMailboxPrefix, List.append_assoc, List.cons_append] at hrest
    exact hne (keyUser_append_inj (List.append_cancel_left hrest)).1
  rw [acl_purgeUserTx, ExtTreeMap.getElem?_filter']
  simp only [howned, Bool.false_or]

end Frame

section Store

variable {user other : Bytes}

theorem changes_recordChange (hne : user ≠ other) (env : ChangeEnv) {changes : Changes}
    (change : Change) :
    (changes.recordChange env user change)[changesBucket other]? = changes[changesBucket other]? := by
  unfold Changes.recordChange
  split_ifs
  · rfl
  · rw [ExtTreeMap.getElem?_insert, if_neg]
    rw [Std.compare_eq_iff_eq, changesBucket_inj]
    exact hne

theorem changes_recordAll (hne : user ≠ other) (envs : List ChangeEnv) (written : List Change)
    (changes : Changes) :
    (recordAll user envs written changes)[changesBucket other]? = changes[changesBucket other]? := by
  induction envs generalizing written changes with
  | nil => rfl
  | cons env envs ih =>
    cases written with
    | nil => rfl
    | cons change written =>
      exact (ih written _).trans (changes_recordChange hne env change)

theorem subscribedBucket_inj : subscribedBucket user = subscribedBucket other ↔ user = other := by
  unfold subscribedBucket
  rw [List.append_cancel_left_eq]
  exact keyUser_injective.eq_iff

theorem Store.SameFor.of_spares {store store' : Store} (h : Spares user store.db store'.db)
    (hsubscribed : store'.subscribed[subscribedBucket user]? = store.subscribed[subscribedBucket user]?)
    (hchanges : store'.changes[changesBucket user]? = store.changes[changesBucket user]?) :
    Store.SameFor user (fun _ => false) store store' where
  record := h.record
  rows := h.rows
  subscribed := hsubscribed
  changes := hchanges
  grants mailbox grantee := by
    rw [h.grants]
    cases store.db.acl[aclKey user mailbox grantee]? <;> rfl

theorem sameFor_purgeUser (hne : user ≠ other) (env : CallEnv) (store : Store) :
    Store.SameFor other (Call.revokes env (.database (.purgeUser user))) store
      (store.apply env (.database (.purgeUser user))) := by
  unfold Store.apply
  cases hfault : env.env.fault with
  | true =>
    refine ⟨fun _ => rfl, fun _ => rfl, rfl, rfl, fun mailbox grantee => ?_⟩
    simp only [if_true, Call.revokes, hfault]
    cases store.db.acl[aclKey other mailbox grantee]? <;> rfl
  | false =>
    have hdb : (Op.purgeUser user).apply env.env store.db = purgeUserTx user store.db := by
      simp [Op.apply, Database.purgeUser, Database.update, hfault]
    refine ⟨fun mailbox => ?_, fun mailbox => ?_, ?_, ?_, fun mailbox grantee => ?_⟩
    · simp [hdb, record_purgeUserTx, hne]
    · simp [hdb, messagesOf_purgeUserTx, hne]
    · simp [Store.dropUser, ExtTreeMap.getElem?_erase, subscribedBucket_inj, hne]
    · simp [Store.dropUser, ExtTreeMap.getElem?_erase, changesBucket_inj, hne]
    · simpa [hdb, Call.revokes, hfault] using grants_purgeUserTx hne grantee

theorem sameFor_apply (env : CallEnv) (store : Store) (call : Call) (hne : call.user ≠ other) :
    Store.SameFor other (call.revokes env) store (store.apply env call) := by
  cases call with
  | setSubscribed user mailbox subscribed =>
    refine Store.SameFor.of_spares ?_ ?_ ?_
    all_goals unfold Store.apply Store.setSubscribed; split_ifs
    · exact .refl other store.db
    · exact .refl other store.db
    · rfl
    · rw [ExtTreeMap.getElem?_insert, if_neg]
      rw [Std.compare_eq_iff_eq, subscribedBucket_inj]
      exact hne
    · rfl
    · rfl
  | database op =>
    by_cases hpurge : ∃ purged, op = .purgeUser purged
    · obtain ⟨purged, rfl⟩ := hpurge
      exact sameFor_purgeUser hne env store
    have hop : ∀ purged, op ≠ .purgeUser purged := fun purged h => hpurge ⟨purged, h⟩
    have hspares := spares_apply env.env store.db hne hop
    have hchanges := changes_recordAll hne [env.first, env.second] (op.changes env.env store.db)
      store.changes
    cases op with
    | purgeUser purged => exact absurd rfl (hop purged)
    | _ => exact Store.SameFor.of_spares hspares rfl hchanges

end Store

section Listing

theorem afterColon_append {head tail : Bytes} (h : colon ∉ head) :
    afterColon (head ++ colon :: tail) = some tail := by
  induction head with
  | nil => rfl
  | cons c head ih =>
    have hc : c ≠ colon := fun hc => h (hc ▸ List.mem_cons_self)
    rw [List.cons_append, afterColon, if_neg hc]
    exact ih fun hmem => h (List.mem_cons_of_mem c hmem)

theorem thirdPart_mailboxKey (user name : Bytes) : thirdPart (mailboxKey user name) = some name := by
  have hkey : mailboxKey user name = bytes "mailbox" ++ colon :: (keyUser user ++ colon :: name) := by
    have hlabel : bytes "mailbox:" = bytes "mailbox" ++ [colon] := by decide
    simp [mailboxKey, hlabel]
  unfold thirdPart
  exact afterColon_append colon_notMem_keyUser

variable {user name : Bytes} {db : Database}

theorem eq_mailboxKey_of_isPrefixOf {key : Bytes} (h : (mailboxPrefix user).isPrefixOf key = true) :
    ∃ name, key = mailboxKey user name := by
  obtain ⟨name, rfl⟩ := List.isPrefixOf_iff_prefix.mp h
  exact ⟨name, by simp [mailboxPrefix, mailboxKey]⟩

theorem mem_mailboxNames : name ∈ db.mailboxNames user ↔ (db.record user name).isSome := by
  unfold Database.mailboxNames
  simp only [Scan.scanPrefix_eq_filter, List.mem_filterMap, List.mem_filter, Prod.exists]
  constructor
  · rintro ⟨key, record, ⟨hrow, hkey⟩, hname⟩
    obtain ⟨name', rfl⟩ := eq_mailboxKey_of_isPrefixOf hkey
    rw [thirdPart_mailboxKey] at hname
    cases hname
    have hrecord : db.record user name = some record :=
      ExtTreeMap.mem_toList_iff_getElem?_eq_some.mp hrow
    rw [hrecord]
    rfl
  · intro h
    obtain ⟨record, hrecord⟩ := Option.isSome_iff_exists.mp h
    exact ⟨mailboxKey user name, record, ⟨ExtTreeMap.mem_toList_iff_getElem?_eq_some.mpr hrecord,
      mailboxPrefix_isPrefixOf.mpr rfl⟩, thirdPart_mailboxKey user name⟩

theorem mailboxNames_nodup : (db.mailboxNames user).Nodup := by
  unfold Database.mailboxNames
  rw [Scan.scanPrefix_eq_filter, List.Nodup, List.pairwise_filterMap]
  refine (ExtTreeMap.ordered_keys_toList.filter _).imp_of_mem ?_
  intro row later hrow hlater hlt name hname name' hname' hsame
  obtain ⟨_, hkey⟩ := eq_mailboxKey_of_isPrefixOf (List.mem_filter.mp hrow).2
  obtain ⟨_, hkey'⟩ := eq_mailboxKey_of_isPrefixOf (List.mem_filter.mp hlater).2
  rw [hkey, thirdPart_mailboxKey, Option.some.injEq] at hname
  rw [hkey', thirdPart_mailboxKey, Option.some.injEq] at hname'
  subst hsame hname hname'
  rw [hkey, hkey', Std.ReflOrd.compare_self] at hlt
  cases hlt

theorem mem_listMailboxes :
    name ∈ db.listMailboxes user ↔ (db.record user name).isSome ∨
      (∀ other, ¬ (db.record user other).isSome) ∧ name = bytes "INBOX" := by
  have hnone : (db.mailboxNames user).length = 0 ↔ ∀ other, ¬ (db.record user other).isSome := by
    rw [List.length_eq_zero_iff, List.eq_nil_iff_forall_not_mem]
    exact forall_congr' fun other => not_congr mem_mailboxNames
  unfold Database.listMailboxes
  by_cases hempty : (db.mailboxNames user).length = 0
  · rw [if_pos hempty, List.mem_singleton]
    have hnames := hnone.mp hempty
    constructor
    · exact fun h => Or.inr ⟨hnames, h⟩
    · rintro (h | ⟨_, h⟩)
      · exact absurd h (hnames name)
      · exact h
  · rw [if_neg hempty, mem_mailboxNames]
    refine (or_iff_left ?_).symm
    exact fun h => hempty (hnone.mpr h.1)

theorem listMailboxes_nodup : (db.listMailboxes user).Nodup := by
  unfold Database.listMailboxes
  dsimp only
  split_ifs
  · exact List.nodup_singleton _
  · exact mailboxNames_nodup

end Listing

section Runs

variable {user name : Bytes} {db db' : Database} {value : Unit} {now : Int}

theorem isSome_putMailbox (u mailbox : Bytes) (r : MailboxRecord) :
    ((db.putMailbox u mailbox r).record user name).isSome ↔
      (u = user ∧ mailbox = name) ∨ (db.record user name).isSome := by
  rw [record_putMailbox]
  split_ifs with h
  · simp [h]
  · simp [h]

theorem isSome_dropMailbox (u mailbox : Bytes) :
    ((db.dropMailbox u mailbox).record user name).isSome ↔
      (db.record user name).isSome ∧ ¬ (u = user ∧ mailbox = name) := by
  rw [record_dropMailbox]
  split_ifs with h
  · simp [h]
  · simp [h]

theorem isSome_update {α : Type} {made : Prop} {env : Env}
    {tx : Database → Except StorageError (α × Database)}
    (htx : ∀ value db', tx db = .ok (value, db') →
      ((db'.record user name).isSome ↔ made ∨ (db.record user name).isSome)) :
    ((db.update env tx).2.record user name).isSome ↔
      (succeeded (db.update env tx).1 = true ∧ made) ∨ (db.record user name).isSome := by
  refine update_cases (motive := fun out => (out.2.record user name).isSome ↔
    (succeeded out.1 = true ∧ made) ∨ (db.record user name).isSome) ?_ ?_
  · intro e
    simp [succeeded]
  · intro value db' _ h
    simpa [succeeded] using htx value db' h

theorem isSome_createMailboxTx {u mailbox : Bytes}
    (h : createMailboxTx now u mailbox db = .ok (value, db')) :
    (db'.record user name).isSome ↔ (u = user ∧ mailbox = name) ∨ (db.record user name).isSome := by
  obtain ⟨b, _, rfl⟩ := createMailboxTx_ok h
  exact isSome_putMailbox u mailbox _

theorem isSome_renameMailboxTx {u oldName newName : Bytes} (hne : oldName ≠ newName)
    (h : renameMailboxTx now u oldName newName db = .ok (value, db')) :
    (db'.record user name).isSome ↔ (u = user ∧ newName = name) ∨
      (db.record user name).isSome ∧ ¬ (u = user ∧ oldName = name) := by
  unfold renameMailboxTx at h
  split at h
  · cases h
  split at h
  · rename_i hold
    obtain ⟨uv, -, h⟩ := ok_of_bind h
    cases h
    rw [record_putMessages, isSome_putMailbox]
    -- There was no old mailbox to drop.
    refine or_congr_right (and_iff_left_of_imp ?_).symm
    rintro hsome ⟨rfl, rfl⟩
    rw [hold] at hsome
    cases hsome
  · have hmoved : ((u = user ∧ newName = name) ∨ (db.record user name).isSome) ∧
        ¬ (u = user ∧ oldName = name) ↔ (u = user ∧ newName = name) ∨
          (db.record user name).isSome ∧ ¬ (u = user ∧ oldName = name) := by
      rw [or_and_right]
      refine or_congr_left (and_iff_left_of_imp ?_)
      rintro ⟨rfl, rfl⟩ ⟨_, hold⟩
      exact hne hold
    cases h
    rw [record_moveACLTx, isSome_dropMailbox, record_recordUIDValidityFloorTx, ← hmoved]
    split
    · rw [isSome_putMailbox]
    · rw [record_putMessages, isSome_putMailbox]

variable (env : Env) (db : Database) (u mailbox : Bytes)

theorem isSome_renameMailbox (oldName newName : Bytes) :
    ((db.renameMailbox env u oldName newName).2.record user name).isSome ↔
      (succeeded (db.renameMailbox env u oldName newName).1 = true ∧ oldName ≠ newName ∧
        u = user ∧ newName = name) ∨
      (db.record user name).isSome ∧
        ¬ (succeeded (db.renameMailbox env u oldName newName).1 = true ∧ oldName ≠ newName ∧
          u = user ∧ oldName = name) := by
  unfold Database.renameMailbox
  by_cases hne : oldName = newName
  · simp [hne]
  rw [if_neg hne]
  refine update_cases (motive := fun out => (out.2.record user name).isSome ↔
    (succeeded out.1 = true ∧ oldName ≠ newName ∧ u = user ∧ newName = name) ∨
      (db.record user name).isSome ∧
        ¬ (succeeded out.1 = true ∧ oldName ≠ newName ∧ u = user ∧ oldName = name)) ?_ ?_
  · intro e
    simp [succeeded]
  · intro value db' _ h
    have hmoved : (db'.record user name).isSome ↔ _ := isSome_renameMailboxTx hne h
    simpa [succeeded, hne] using hmoved

theorem isSome_deleteMailbox :
    ((db.deleteMailbox env u mailbox).2.record user name).isSome ↔
      (db.record user name).isSome ∧
        ¬ (succeeded (db.deleteMailbox env u mailbox).1 = true ∧ u = user ∧ mailbox = name) := by
  have hdrop : ((deleteMailboxTx u mailbox db).record user name).isSome ↔
      (db.record user name).isSome ∧ ¬ (u = user ∧ mailbox = name) := by
    unfold deleteMailboxTx
    rw [isSome_dropMailbox, record_recordUIDValidityFloorTx]
  unfold Database.deleteMailbox
  split_ifs with hinbox hfault hcleanup
  · simp [succeeded]
  · simp [succeeded]
  · have hacl : (deleteACLTx u mailbox (deleteMailboxTx u mailbox db)).record user name =
        (deleteMailboxTx u mailbox db).record user name := rfl
    rw [hacl, hdrop]
    simp [succeeded]
  · rw [hdrop]
    simp [succeeded]

theorem isSome_raiseHighestModSeqTx (v : UInt64) :
    ((raiseHighestModSeqTx u mailbox v db).record user name).isSome ↔ (db.record user name).isSome := by
  unfold raiseHighestModSeqTx
  split_ifs
  · rfl
  split
  · rfl
  rename_i b hb
  split_ifs
  · rfl
  · rw [isSome_putMailbox, or_iff_right_iff_imp]
    rintro ⟨rfl, rfl⟩
    simp [hb]

theorem isSome_raiseUIDNextTx (uid : UInt32) :
    ((raiseUIDNextTx u mailbox uid db).record user name).isSome ↔ (db.record user name).isSome := by
  unfold raiseUIDNextTx
  split
  · rfl
  rename_i b hb
  split_ifs
  · rw [isSome_putMailbox, or_iff_right_iff_imp]
    rintro ⟨rfl, rfl⟩
    simp [hb]
  · rfl

theorem isSome_storeMessageMetadataTx (uid : UInt32)
    (metadata : MessageMetadata) :
    ((storeMessageMetadataTx u mailbox uid metadata db).record user name).isSome ↔
      (u = user ∧ mailbox = name ∧ ∃ previous, db.row u mailbox uid = some previous ∧
        metadata.modSeq ≤ previous.modSeq) ∨ (db.record user name).isSome := by
  unfold storeMessageMetadataTx
  rw [record_putMessages, isSome_raiseUIDNextTx, isSome_raiseHighestModSeqTx, row_getD]
  unfold replaceModSeqTx
  rcases db.row u mailbox uid with _ | previous
  · simp
  by_cases hstale : metadata.modSeq ≤ previous.modSeq
  · simp only [hstale, if_true, getNextModSeqTx, isSome_putMailbox, isSome_raiseHighestModSeqTx]
    simp [hstale]
  · simp [hstale]

theorem isSome_updateMessageMetadataFunc (uid : UInt32)
    (fn : MessageMetadata → Option MessageMetadata) :
    ((db.updateMessageMetadataFunc env u mailbox uid fn).2.record user name).isSome ↔
      (env.fault = false ∧ u = user ∧ mailbox = name ∧ ∃ previous,
        db.row u mailbox uid = some previous ∧ (fn previous).isSome) ∨
      (db.record user name).isSome := by
  unfold Database.updateMessageMetadataFunc Database.update updateMessageMetadataFuncTx Database.row
  cases env.fault with
  | true => simp
  | false =>
    rcases hrows : db.messagesOf u mailbox with _ | rows
    · simp
    rcases hrow : rows[uid]? with _ | previous
    · simp [hrow]
    rcases hfn : fn previous with _ | changed
    · simp [hrow, hfn]
    simp only [hrow, hfn, Bool.false_eq_true, if_false, record_putMessages,
      getNextModSeqTx, isSome_putMailbox]
    simp [hrow, hfn]

theorem record_deleteMessage (uid : UInt32) :
    (db.deleteMessage env u mailbox uid).2.record user name = db.record user name := by
  unfold Database.deleteMessage Database.update deleteMessageTx
  split
  · rfl
  · dsimp only
    split <;> rfl

-- A call makes and drops mailbox records as the history of names says.
theorem isSome_record_apply (op : Op) (user name : Bytes) :
    ((op.apply env db).record user name).isSome ↔ op.makes env db user name ∨
      (db.record user name).isSome ∧ ¬ op.drops env db user name := by
  cases op with
  | createMailbox u mailbox =>
    simp only [Op.drops, not_false_eq_true, and_true]
    exact isSome_update fun _ _ h => isSome_createMailboxTx h
  | deleteMailbox u mailbox =>
    simpa [Op.apply, Op.makes, Op.drops] using isSome_deleteMailbox env db u mailbox
  | renameMailbox u oldName newName => exact isSome_renameMailbox env db u oldName newName
  | getNextUID u mailbox =>
    simp only [Op.drops, not_false_eq_true, and_true]
    refine isSome_update fun uid db' h => ?_
    obtain ⟨b, _, _, _, rfl⟩ := getNextUIDTx_ok h
    exact isSome_putMailbox u mailbox _
  | getNextModSeq u mailbox =>
    simp only [Op.drops, not_false_eq_true, and_true]
    refine isSome_update fun modSeq db' h => ?_
    obtain ⟨b, rfl⟩ := getNextModSeq_ok h
    exact isSome_putMailbox u mailbox _
  | storeMessageMetadata u mailbox uid metadata =>
    rcases metadata with _ | metadata
    · simp [Op.apply, Op.makes, Op.drops, Database.storeMessageMetadata]
    simp only [Op.apply, Op.makes, Op.drops, Database.storeMessageMetadata, Database.update]
    cases env.fault with
    | true => simp
    | false => simpa using isSome_storeMessageMetadataTx db u mailbox uid metadata.normalize
  | updateMessageMetadataFunc u mailbox uid fn =>
    simp only [Op.drops, not_false_eq_true, and_true]
    exact isSome_updateMessageMetadataFunc env db u mailbox uid fn
  | deleteMessage u mailbox uid =>
    simp [Op.apply, Op.makes, Op.drops, record_deleteMessage]
  | purgeUser u =>
    simp only [Op.apply, Op.makes, Op.drops, Database.purgeUser, Database.update]
    cases env.fault with
    | true => simp
    | false =>
      simp only [Bool.false_eq_true, if_false, record_purgeUserTx]
      by_cases hu : u = user
      · simp [hu]
      · simp [hu]

theorem madeNames_run (steps : List Step) (db : Database) (names : Bytes → Bytes → Prop)
    (h : ∀ user name, names user name ↔ (db.record user name).isSome) (user name : Bytes) :
    madeNames db names steps user name ↔ ((run steps db).record user name).isSome := by
  induction steps generalizing db names with
  | nil => exact h user name
  | cons step steps ih =>
    refine ih (step.apply db) _ fun user name => ?_
    rw [h user name]
    exact (isSome_record_apply step.env db step.op user name).symm

end Runs

-- Calls for one user leave everything of another alone, but for a purge, which
-- takes back what the purged user was granted. A user is shown the mailboxes
-- made and not dropped, each once, and INBOX alone where there are none.
theorem isolation :
    (∀ env store (call : Call) user, call.user ≠ user →
      Store.SameFor user (call.revokes env) store (store.apply env call)) ∧
    ∀ steps user, ((run steps .empty).listMailboxes user).Nodup ∧
      ∀ name, name ∈ (run steps .empty).listMailboxes user ↔
        madeNames .empty (fun _ _ => False) steps user name ∨
          (∀ other, ¬ madeNames .empty (fun _ _ => False) steps user other) ∧
            name = bytes "INBOX" := by
  refine ⟨fun env store call user hne => sameFor_apply env store call hne, fun steps user => ?_⟩
  have hmade := madeNames_run steps .empty (fun _ _ => False) fun user name => by
    simp [Database.empty, Database.record]
  refine ⟨listMailboxes_nodup, fun name => ?_⟩
  simp only [hmade]
  exact mem_listMailboxes

def calm : CallEnv := ⟨quiet, ⟨0, false⟩, ⟨0, false⟩⟩

-- A mailbox with a message, a subscription, a journal, and access entries for
-- the other user and for a third one.
def sharing : Store :=
  let store := ((Store.empty.apply calm (.database (.createMailbox (bytes "v") (bytes "INBOX")))).apply calm
    (.database (.storeMessageMetadata (bytes "v") (bytes "INBOX") 1
      (some { MessageMetadata.empty with messageID := bytes "aa" })))).apply calm
    (.setSubscribed (bytes "v") (bytes "INBOX") true)
  let db := (store.db.setACL quiet (bytes "v") (bytes "INBOX") (bytes "u") 1 (bytes "v")).2
  { store with db := (db.setACL quiet (bytes "v") (bytes "INBOX") (bytes "w") 1 (bytes "v")).2 }

theorem isolation_purge_of_other :
    ((sharing.db.record (bytes "v") (bytes "INBOX")).isSome ∧
      (sharing.db.row (bytes "v") (bytes "INBOX") 1).isSome ∧
      (sharing.subscribed[subscribedBucket (bytes "v")]?.any (·.contains (bytes "INBOX"))) = true ∧
      sharing.changes[changesBucket (bytes "v")]?.isSome ∧
      sharing.db.acl.keys = [bytes "acl:v:INBOX:u", bytes "acl:v:INBOX:w"]) ∧
    Store.SameFor (bytes "v") (Call.revokes calm (.database (.purgeUser (bytes "u")))) sharing
      (sharing.apply calm (.database (.purgeUser (bytes "u")))) :=
  ⟨by decide, isolation.1 _ _ _ _ (by decide)⟩

end UMail.Storage
