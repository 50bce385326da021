import UMail.Storage.Messages

namespace UMail.Storage

open Std (ExtTreeMap ExtTreeSet)
open Fallible (ok_of_bind ok_of_map)

-- Every transaction is described by what it does to the record, the rows and
-- the UIDVALIDITY floor of each single mailbox. Nothing below this module
-- looks at the buckets again.
-- A transaction either changes nothing or ends as it was written.
theorem update_cases {α : Type} {db : Database} {env : Env}
    {tx : Database → Except StorageError (α × Database)}
    {motive : Except StorageError α × Database → Prop}
    (hsame : ∀ e, motive (.error e, db))
    (hok : ∀ value db', env.fault = false → tx db = .ok (value, db') → motive (.ok value, db')) :
    motive (db.update env tx) := by
  unfold Database.update
  split
  · exact hsame _
  rename_i hf
  split
  · rename_i value db' he
    exact hok value db' (by simpa using hf) he
  · exact hsame _

theorem update_snd {α : Type} {env : Env} {db : Database}
    {tx : Database → Except StorageError (α × Database)} :
    (db.update env tx).2 = db ∨
      env.fault = false ∧ ∃ value, tx db = .ok (value, (db.update env tx).2) :=
  update_cases (motive := fun out => out.2 = db ∨ env.fault = false ∧ ∃ value,
    tx db = .ok (value, out.2)) (fun _ => .inl rfl)
    fun value _ hfault htx => .inr ⟨hfault, value, htx⟩

section Primitives

variable (db : Database) (user mailbox other box : Bytes) (r : MailboxRecord)
  (rows : ExtTreeMap UInt32 MessageMetadata) (newName : Bytes) (uid : UInt32)

@[simp] theorem record_putMailbox : (db.putMailbox user mailbox r).record other box =
      if user = other ∧ mailbox = box then some r else db.record other box := by
  simp only [Database.record, Database.putMailbox, ExtTreeMap.getElem?_insert,
    Std.LawfulEqOrd.compare_eq_iff_eq, mailboxKey_inj]

@[simp] theorem messagesOf_putMailbox :
    (db.putMailbox user mailbox r).messagesOf other box = db.messagesOf other box := rfl

@[simp] theorem floor_putMailbox :
    (db.putMailbox user mailbox r).floor other box = db.floor other box := rfl

@[simp] theorem row_putMailbox :
    (db.putMailbox user mailbox r).row other box uid = db.row other box uid := rfl

@[simp] theorem record_putMessages :
    (db.putMessages user mailbox rows).record other box = db.record other box := rfl

@[simp] theorem messagesOf_putMessages : (db.putMessages user mailbox rows).messagesOf other box =
      if user = other ∧ mailbox = box then some rows else db.messagesOf other box := by
  simp only [Database.messagesOf, Database.putMessages, ExtTreeMap.getElem?_insert,
    Std.LawfulEqOrd.compare_eq_iff_eq, messagesBucket_inj]

@[simp] theorem floor_putMessages :
    (db.putMessages user mailbox rows).floor other box = db.floor other box := rfl

@[simp] theorem row_putMessages : (db.putMessages user mailbox rows).row other box uid =
      if user = other ∧ mailbox = box then rows[uid]? else db.row other box uid := by
  unfold Database.row
  rw [messagesOf_putMessages]
  split_ifs <;> rfl

@[simp] theorem record_dropMailbox :
    (db.dropMailbox user mailbox).record other box =
      if user = other ∧ mailbox = box then none else db.record other box := by
  simp only [Database.record, Database.dropMailbox, ExtTreeMap.getElem?_erase,
    Std.LawfulEqOrd.compare_eq_iff_eq, mailboxKey_inj]

@[simp] theorem messagesOf_dropMailbox :
    (db.dropMailbox user mailbox).messagesOf other box =
      if user = other ∧ mailbox = box then none else db.messagesOf other box := by
  simp only [Database.messagesOf, Database.dropMailbox, ExtTreeMap.getElem?_erase,
    Std.LawfulEqOrd.compare_eq_iff_eq, messagesBucket_inj]

@[simp] theorem floor_dropMailbox :
    (db.dropMailbox user mailbox).floor other box = db.floor other box := rfl

@[simp] theorem record_moveACLTx :
    (moveACLTx user mailbox newName db).record other box = db.record other box := rfl

@[simp] theorem messagesOf_moveACLTx :
    (moveACLTx user mailbox newName db).messagesOf other box = db.messagesOf other box := rfl

@[simp] theorem floor_moveACLTx :
    (moveACLTx user mailbox newName db).floor other box = db.floor other box := rfl

theorem row_getD : ((db.messagesOf user mailbox).getD ∅)[uid]? = db.row user mailbox uid := by
  unfold Database.row
  cases db.messagesOf user mailbox <;> simp

end Primitives

def MailboxRecord.nextUID (b : MailboxRecord) : UInt32 :=
  if b.uidNext.getD 0 = 0 then 1 else b.uidNext.getD 0

section Inversion

variable {db : Database} {user mailbox : Bytes} {now : Int} {b b' : MailboxRecord} {value : Unit}
  {db' : Database} {oldName newName : Bytes}

theorem ensureUIDValidityTx_ok (h : ensureUIDValidityTx now db (mailboxKey user mailbox) b = .ok b') :
    b'.uidNext = b.uidNext ∧ b'.highestModSeq = b.highestModSeq ∧
      (b'.uidValidity = b.uidValidity ∨
        b.uidValidity = none ∧ ∃ uv, b'.uidValidity = some uv ∧
          nextUIDValidityTx now db (mailboxKey user mailbox) = .ok uv) := by
  unfold ensureUIDValidityTx at h
  split at h
  · cases h
    exact ⟨rfl, rfl, .inl rfl⟩
  · rename_i hnone
    obtain ⟨uv, hn, rfl⟩ := ok_of_map h
    exact ⟨rfl, rfl, .inr ⟨hnone, uv, rfl, hn⟩⟩

theorem ensureUIDValidityTx_isSome
    (h : ensureUIDValidityTx now db (mailboxKey user mailbox) b = .ok b') :
    ∃ uv, b'.uidValidity = some uv := by
  unfold ensureUIDValidityTx at h
  split at h
  · rename_i uv hb
    cases h
    exact ⟨uv, hb⟩
  · obtain ⟨uv, -, rfl⟩ := ok_of_map h
    exact ⟨uv, rfl⟩

theorem createMailboxTx_ok (h : createMailboxTx now user mailbox db = .ok (value, db')) :
    ∃ b, ensureUIDValidityTx now db (mailboxKey user mailbox) (db.recordOrNew user mailbox) = .ok b ∧
      db' = (db.putMailbox user mailbox { b with
          uidNext := some (b.uidNext.getD 1)
          highestModSeq := some (b.highestModSeq.getD 0) }).putMessages user mailbox
        ((db.messagesOf user mailbox).getD ∅) := by
  obtain ⟨b, he, h⟩ := ok_of_bind h
  cases h
  exact ⟨b, he, rfl⟩

theorem getNextUIDTx_ok {uid : UInt32} (h : getNextUIDTx now user mailbox db = .ok (uid, db')) :
    ∃ b, ensureUIDValidityTx now db (mailboxKey user mailbox) (db.recordOrNew user mailbox) = .ok b ∧
      uid = b.nextUID ∧ uid ≠ maxUint32 ∧
      db' = db.putMailbox user mailbox { b with uidNext := some (uid + 1) } := by
  obtain ⟨b, he, h⟩ := ok_of_bind h
  change (if b.nextUID = maxUint32 then _ else Except.ok (b.nextUID,
    db.putMailbox user mailbox { b with uidNext := some (b.nextUID + 1) })) = _ at h
  split_ifs at h with hmax
  cases h
  exact ⟨b, he, rfl, hmax, rfl⟩

theorem renameMailboxTx_free (h : renameMailboxTx now user oldName newName db = .ok (value, db')) :
    db.record user newName = none ∧ db.messagesOf user newName = none := by
  unfold renameMailboxTx at h
  split at h
  · cases h
  · rename_i hfree
    simpa only [Bool.or_eq_true, not_or, Option.not_isSome_iff_eq_none] using hfree

-- A mailbox that is not there is made under the new name.
theorem renameMailboxTx_absent (h : renameMailboxTx now user oldName newName db = .ok (value, db'))
    (hold : db.record user oldName = none) :
    ∃ uv, nextUIDValidityTx now db (mailboxKey user newName) = .ok uv ∧
      db' = (db.putMailbox user newName ⟨some uv, some 1, none⟩).putMessages user newName ∅ := by
  unfold renameMailboxTx at h
  split at h
  · cases h
  rw [hold] at h
  obtain ⟨uv, hn, h⟩ := ok_of_bind h
  cases h
  exact ⟨uv, hn, rfl⟩

end Inversion

def raiseFloor (uidValidity floor : Option UInt32) : Option UInt32 :=
  Option.merge (fun v f => if f ≥ v then f else v) uidValidity floor

theorem raiseFloor_ge_uidValidity {uidValidity : Option UInt32} {floor : Option UInt32} {v : UInt32}
    (h : uidValidity = some v) : ∃ f, raiseFloor uidValidity floor = some f ∧ v ≤ f := by
  subst h
  rcases floor with _ | f
  · exact ⟨v, rfl, UInt32.le_refl v⟩
  refine ⟨_, rfl, ?_⟩
  dsimp only
  split_ifs with hge
  · exact hge
  · exact UInt32.le_refl v

theorem raiseFloor_ge_floor {uidValidity : Option UInt32} {floor : Option UInt32} {f : UInt32}
    (h : floor = some f) : ∃ f', raiseFloor uidValidity floor = some f' ∧ f ≤ f' := by
  subst h
  rcases uidValidity with _ | v
  · exact ⟨f, rfl, UInt32.le_refl f⟩
  refine ⟨_, rfl, ?_⟩
  dsimp only
  split_ifs with hge
  · exact UInt32.le_refl f
  · exact UInt32.le_of_lt (UInt32.not_le.mp hge)

section Floor

private def floorAt (db : Database) (key : Bytes) : Option UInt32 :=
  db.uidValidityFloor.bind fun floors => floors[key]?

variable (db : Database)

private theorem floorAt_getD (key : Bytes) :
    (db.uidValidityFloor.getD ∅)[key]? = floorAt db key := by
  unfold floorAt
  cases db.uidValidityFloor <;> simp

@[simp] theorem mailboxes_recordUIDValidityFloorTx (key : Bytes) :
    (recordUIDValidityFloorTx db key).mailboxes = db.mailboxes := by
  unfold recordUIDValidityFloorTx
  split
  · rfl
  dsimp only
  split
  · split_ifs <;> rfl
  · rfl

@[simp] theorem messages_recordUIDValidityFloorTx (key : Bytes) :
    (recordUIDValidityFloorTx db key).messages = db.messages := by
  unfold recordUIDValidityFloorTx
  split
  · rfl
  dsimp only
  split
  · split_ifs <;> rfl
  · rfl

@[simp] theorem record_recordUIDValidityFloorTx (key other box : Bytes) :
    (recordUIDValidityFloorTx db key).record other box = db.record other box := by
  simp only [Database.record, mailboxes_recordUIDValidityFloorTx]

@[simp] theorem messagesOf_recordUIDValidityFloorTx (key other box : Bytes) :
    (recordUIDValidityFloorTx db key).messagesOf other box = db.messagesOf other box := by
  simp only [Database.messagesOf, messages_recordUIDValidityFloorTx]

private theorem floorAt_recordUIDValidityFloorTx (key k : Bytes) :
    floorAt (recordUIDValidityFloorTx db key) k =
      if key = k then raiseFloor (db.mailboxes[key]?.bind MailboxRecord.uidValidity)
        (floorAt db key) else floorAt db k := by
  unfold recordUIDValidityFloorTx
  cases huv : db.mailboxes[key]?.bind MailboxRecord.uidValidity with
  | none =>
    split_ifs with hk
    · rw [hk]
      cases floorAt db k <;> rfl
    · rfl
  | some uv =>
    dsimp only
    rw [floorAt_getD]
    cases hf : floorAt db key with
    | none =>
      simp only [floorAt, Option.bind_some, ExtTreeMap.getElem?_insert,
        Std.LawfulEqOrd.compare_eq_iff_eq]
      split_ifs with hk
      · rfl
      · exact floorAt_getD db k
    | some cur =>
      dsimp only
      split_ifs with hge hk hk
      · subst hk
        simp only [floorAt, Option.bind_some]
        rw [floorAt_getD, hf]
        simp only [raiseFloor, Option.merge, if_pos hge]
      · exact floorAt_getD db k
      · subst hk
        simp only [floorAt, Option.bind_some, ExtTreeMap.getElem?_insert_self, raiseFloor,
          Option.merge, if_neg hge]
      · simp only [floorAt, Option.bind_some, ExtTreeMap.getElem?_insert,
          Std.LawfulEqOrd.compare_eq_iff_eq, if_neg hk]
        exact floorAt_getD db k

@[simp] theorem floor_recordUIDValidityFloorTx (user mailbox other box : Bytes) :
    (recordUIDValidityFloorTx db (mailboxKey user mailbox)).floor other box =
      if user = other ∧ mailbox = box then
        raiseFloor ((db.record user mailbox).bind MailboxRecord.uidValidity)
          (db.floor user mailbox)
      else db.floor other box := by
  have h := floorAt_recordUIDValidityFloorTx db (mailboxKey user mailbox) (mailboxKey other box)
  simp only [mailboxKey_inj] at h
  exact h

variable (keys : List Bytes)

-- A purge goes through the records one by one. Meeting a key again changes
-- nothing, so only the set of keys matters.
private theorem mailboxes_foldl_purgeMailboxTx (db : Database) (k : Bytes) :
    (keys.foldl purgeMailboxTx db).mailboxes[k]? =
      if k ∈ keys then none else db.mailboxes[k]? := by
  induction keys generalizing db with
  | nil => simp
  | cons key keys ih =>
    rw [List.foldl_cons, ih]
    by_cases hk : k ∈ keys
    · simp [hk]
    by_cases he : k = key
    · subst he
      simp [purgeMailboxTx]
    · have hne : ¬ key = k := fun h => he h.symm
      simp [he, hne, purgeMailboxTx, ExtTreeMap.getElem?_erase]

private theorem floorAt_foldl_purgeMailboxTx (db : Database) (k : Bytes) :
    floorAt (keys.foldl purgeMailboxTx db) k =
      if k ∈ keys then raiseFloor (db.mailboxes[k]?.bind MailboxRecord.uidValidity) (floorAt db k)
      else floorAt db k := by
  induction keys generalizing db with
  | nil => simp
  | cons key keys ih =>
    have hfloor : floorAt (purgeMailboxTx db key) k =
        floorAt (recordUIDValidityFloorTx db key) k := rfl
    rw [List.foldl_cons, ih, hfloor, floorAt_recordUIDValidityFloorTx]
    by_cases he : key = k
    · subst he
      have hgone : (purgeMailboxTx db key).mailboxes[key]? = none := by
        simp [purgeMailboxTx]
      simp only [hgone, if_true, List.mem_cons, true_or]
      split_ifs
      · cases raiseFloor (db.mailboxes[key]?.bind MailboxRecord.uidValidity)
          (floorAt db key) <;> rfl
      · rfl
    · have hkeep : (purgeMailboxTx db key).mailboxes[k]? = db.mailboxes[k]? := by
        simp [purgeMailboxTx, ExtTreeMap.getElem?_erase, he]
      have hne : ¬ k = key := fun h => he h.symm
      simp only [hkeep, if_neg he, List.mem_cons, hne, false_or]

private theorem messages_foldl_purgeMailboxTx (db : Database) :
    (keys.foldl purgeMailboxTx db).messages = db.messages := by
  induction keys generalizing db with
  | nil => rfl
  | cons key keys ih =>
    rw [List.foldl_cons, ih]
    simp [purgeMailboxTx]

private theorem mem_purged_keys {db : Database} {user other box : Bytes}
    (h : db.record other box ≠ none) :
    mailboxKey other box ∈ db.mailboxes.keys.filter (mailboxPrefix user).isPrefixOf ↔
      user = other := by
  rw [List.mem_filter, mailboxPrefix_isPrefixOf, ExtTreeMap.mem_keys]
  refine and_iff_right ?_
  rw [ExtTreeMap.mem_iff_isSome_getElem?]
  exact Option.isSome_iff_ne_none.mpr h

theorem record_purgeUserTx (user other box : Bytes) :
    (purgeUserTx user db).record other box = if user = other then none else db.record other box := by
  have h : (purgeUserTx user db).record other box = _ :=
    mailboxes_foldl_purgeMailboxTx (db.mailboxes.keys.filter (mailboxPrefix user).isPrefixOf) db
      (mailboxKey other box)
  rw [h]
  by_cases hn : db.record other box = none
  · have hn' : db.mailboxes[mailboxKey other box]? = none := hn
    simp [hn, hn']
  · simp only [mem_purged_keys hn]
    rfl

theorem floor_purgeUserTx (user other box : Bytes) :
    (purgeUserTx user db).floor other box =
      if user = other then
        raiseFloor ((db.record other box).bind MailboxRecord.uidValidity) (db.floor other box)
      else db.floor other box := by
  have h : (purgeUserTx user db).floor other box = _ :=
    floorAt_foldl_purgeMailboxTx (db.mailboxes.keys.filter (mailboxPrefix user).isPrefixOf) db
      (mailboxKey other box)
  rw [h]
  by_cases hn : db.record other box = none
  · have hn' : db.mailboxes[mailboxKey other box]? = none := hn
    have hkeep : raiseFloor none (db.floor other box) = db.floor other box := by
      cases db.floor other box <;> rfl
    simp only [hn, hn', Option.bind_none, hkeep, ite_self]
    exact ite_eq_right_iff.mpr fun _ => hkeep
  · simp only [mem_purged_keys hn]
    rfl

theorem messagesOf_purgeUserTx (user other box : Bytes) :
    (purgeUserTx user db).messagesOf other box =
      if user = other then none else db.messagesOf other box := by
  have hm : (purgeUserTx user db).messages =
      db.messages.filter fun key _ => !(messagesPrefix user).isPrefixOf key := by
    simp only [purgeUserTx, messages_foldl_purgeMailboxTx]
  unfold Database.messagesOf
  rw [hm, ExtTreeMap.getElem?_filter']
  by_cases hu : user = other
  · have hp : (messagesPrefix user).isPrefixOf (messagesBucket other box) = true :=
      messagesPrefix_isPrefixOf.mpr hu
    simp only [hp, if_pos hu]
    cases db.messages[messagesBucket other box]? <;> rfl
  · have hp : (messagesPrefix user).isPrefixOf (messagesBucket other box) = false := by
      rw [Bool.eq_false_iff]
      exact fun h => hu (messagesPrefix_isPrefixOf.mp h)
    simp only [hp, if_neg hu]
    cases db.messages[messagesBucket other box]? <;> rfl

end Floor

end UMail.Storage
