import UMail.Storage.View

namespace UMail.Storage

open Std (ExtTreeMap)

def maxUint64 : UInt64 := 18446744073709551615

section HighestModSeq

variable (db : Database) (user mailbox other box : Bytes)

@[simp] theorem getHighestModSeq_putMailbox (r : MailboxRecord) :
    (db.putMailbox user mailbox r).getHighestModSeq other box =
      if user = other ∧ mailbox = box then r.highestModSeq.getD 0
      else db.getHighestModSeq other box := by
  unfold Database.getHighestModSeq
  rw [record_putMailbox]
  split_ifs <;> rfl

@[simp] theorem getHighestModSeq_putMessages (rows : ExtTreeMap UInt32 MessageMetadata) :
    (db.putMessages user mailbox rows).getHighestModSeq other box =
      db.getHighestModSeq other box := rfl

theorem getHighestModSeq_eq :
    db.getHighestModSeq user mailbox = (db.recordOrNew user mailbox).highestModSeq.getD 0 := by
  unfold Database.getHighestModSeq Database.recordOrNew
  cases db.record user mailbox <;> rfl

-- The counter is lifted or left alone, and only the counter of this mailbox.
theorem raiseHighestModSeqTx_cases (v : UInt64) :
    (raiseHighestModSeqTx user mailbox v db).getHighestModSeq other box =
        db.getHighestModSeq other box ∨
      (user = other ∧ mailbox = box ∧ db.getHighestModSeq other box < v ∧
        (raiseHighestModSeqTx user mailbox v db).getHighestModSeq other box = v) := by
  unfold raiseHighestModSeqTx
  split
  · exact .inl rfl
  split
  · exact .inl rfl
  rename_i b hb
  split
  · exact .inl rfl
  rename_i hlt
  rw [getHighestModSeq_putMailbox]
  split_ifs with hsame
  · obtain ⟨rfl, rfl⟩ := hsame
    refine .inr ⟨rfl, rfl, ?_, rfl⟩
    simpa [Database.getHighestModSeq, hb] using hlt
  · exact .inl rfl

theorem getHighestModSeq_le_raise (v : UInt64) :
    db.getHighestModSeq other box ≤
      (raiseHighestModSeqTx user mailbox v db).getHighestModSeq other box := by
  rcases raiseHighestModSeqTx_cases db user mailbox other box v with he | ⟨_, _, hlt, he⟩
  · rw [he]
    exact UInt64.le_refl _
  · rw [he]
    exact UInt64.le_of_lt hlt

theorem getNextModSeqTx_fst :
    (getNextModSeqTx user mailbox db).1 = db.getHighestModSeq user mailbox + 1 := by
  rw [getHighestModSeq_eq]
  rfl

theorem getHighestModSeq_getNextModSeqTx :
    (getNextModSeqTx user mailbox db).2.getHighestModSeq other box =
      if user = other ∧ mailbox = box then db.getHighestModSeq user mailbox + 1
      else db.getHighestModSeq other box := by
  unfold getNextModSeqTx
  rw [getHighestModSeq_putMailbox, getHighestModSeq_eq db user mailbox]
  rfl

@[simp] theorem row_raiseHighestModSeqTx (v : UInt64) (uid : UInt32) :
    (raiseHighestModSeqTx user mailbox v db).row other box uid = db.row other box uid := by
  unfold raiseHighestModSeqTx
  split
  · rfl
  · split
    · rfl
    · split <;> simp

@[simp] theorem getHighestModSeq_raiseUIDNextTx (uid : UInt32) :
    (raiseUIDNextTx user mailbox uid db).getHighestModSeq other box =
      db.getHighestModSeq other box := by
  unfold raiseUIDNextTx
  split
  · rfl
  rename_i b hb
  split
  · rw [getHighestModSeq_putMailbox]
    split_ifs with hsame
    · obtain ⟨rfl, rfl⟩ := hsame
      simp [Database.getHighestModSeq, hb]
    · rfl
  · rfl

@[simp] theorem row_raiseUIDNextTx (uid uid' : UInt32) :
    (raiseUIDNextTx user mailbox uid db).row other box uid' = db.row other box uid' := by
  unfold raiseUIDNextTx
  split
  · rfl
  · split <;> simp

@[simp] theorem row_replaceModSeqTx (previous : Option MessageMetadata) (modSeq : UInt64)
    (uid : UInt32) :
    (replaceModSeqTx user mailbox previous modSeq db).2.row other box uid =
      db.row other box uid := by
  unfold replaceModSeqTx
  split
  · rfl
  · split <;> simp [getNextModSeqTx]

end HighestModSeq

theorem lt_succ_modSeq {v : UInt64} (h : v ≠ maxUint64) : v < v + 1 := by
  unfold maxUint64 at h
  grind

def storedModSeq (db : Database) (user mailbox : Bytes) (uid : UInt32) (modSeq : UInt64) : UInt64 :=
  (replaceModSeqTx user mailbox (db.row user mailbox uid) modSeq db).1

theorem row_storeMessageMetadataTx (db : Database) (user mailbox other box : Bytes)
    (uid uid' : UInt32) (metadata : MessageMetadata) :
    (storeMessageMetadataTx user mailbox uid metadata db).row other box uid' =
      if user = other ∧ mailbox = box ∧ uid = uid' then
        some { metadata with modSeq := storedModSeq db user mailbox uid metadata.modSeq }
      else db.row other box uid' := by
  unfold storeMessageMetadataTx storedModSeq
  simp only [row_getD, row_putMessages, row_raiseUIDNextTx, row_raiseHighestModSeqTx,
    row_replaceModSeqTx, ExtTreeMap.getElem?_insert]
  by_cases hbox : user = other ∧ mailbox = box
  · obtain ⟨rfl, rfl⟩ := hbox
    simp
  · have hno : ¬ (user = other ∧ mailbox = box ∧ uid = uid') := fun h => hbox ⟨h.1, h.2.1⟩
    rw [if_neg hbox, if_neg hno]

theorem storedModSeq_of_new {db : Database} {user mailbox : Bytes} {uid : UInt32}
    (h : db.row user mailbox uid = none) (modSeq : UInt64) :
    storedModSeq db user mailbox uid modSeq = modSeq := by
  simp [storedModSeq, replaceModSeqTx, h]

theorem getHighestModSeq_replaceModSeqTx_le (db : Database) (user mailbox other box : Bytes)
    (previous : Option MessageMetadata) (modSeq : UInt64)
    (hcounter : db.getHighestModSeq user mailbox ≠ maxUint64)
    (hprevious : ∀ prev, previous = some prev → prev.modSeq ≠ maxUint64) :
    db.getHighestModSeq other box ≤
      (replaceModSeqTx user mailbox previous modSeq db).2.getHighestModSeq other box := by
  unfold replaceModSeqTx
  split
  · exact UInt64.le_refl _
  rename_i prev
  split
  · rw [getHighestModSeq_getNextModSeqTx]
    split_ifs with hsame
    · obtain ⟨rfl, rfl⟩ := hsame
      have hle := getHighestModSeq_le_raise db user mailbox user mailbox prev.modSeq
      refine UInt64.le_trans hle (UInt64.le_of_lt (lt_succ_modSeq ?_))
      rcases raiseHighestModSeqTx_cases db user mailbox user mailbox prev.modSeq with
        he | ⟨_, _, _, he⟩
      · rwa [he]
      · rw [he]
        exact hprevious prev rfl
    · exact getHighestModSeq_le_raise db user mailbox other box prev.modSeq
  · exact UInt64.le_refl _

def Raisable (db : Database) (user mailbox : Bytes) (uid : UInt32) : Prop :=
  db.getHighestModSeq user mailbox ≠ maxUint64 ∧
    ∀ prev, db.row user mailbox uid = some prev → prev.modSeq ≠ maxUint64

instance (db : Database) (user mailbox : Bytes) (uid : UInt32) :
    Decidable (Raisable db user mailbox uid) :=
  decidable_of_iff (db.getHighestModSeq user mailbox ≠ maxUint64 ∧
      (db.row user mailbox uid).all (fun prev => prev.modSeq ≠ maxUint64) = true) (by
    unfold Raisable
    cases db.row user mailbox uid <;> simp)

section Store

variable {db : Database} {user mailbox : Bytes} {uid : UInt32} {value : Unit} {db' : Database}
  {now : Int}

theorem getHighestModSeq_store_le (h : Raisable db user mailbox uid) (metadata : MessageMetadata)
    (other box : Bytes) :
    db.getHighestModSeq other box ≤
      (storeMessageMetadataTx user mailbox uid metadata db).getHighestModSeq other box := by
  unfold storeMessageMetadataTx
  simp only [row_getD, getHighestModSeq_putMessages, getHighestModSeq_raiseUIDNextTx]
  exact UInt64.le_trans
    (getHighestModSeq_replaceModSeqTx_le db user mailbox other box _ _ h.1 h.2)
    (getHighestModSeq_le_raise _ _ _ _ _ _)

-- A row that replaces another one under ModSeq 0 gets a ModSeq above the
-- counter, and the counter follows.
theorem storedModSeq_fresh (h : Raisable db user mailbox uid) {prev : MessageMetadata}
    (hprev : db.row user mailbox uid = some prev) :
    db.getHighestModSeq user mailbox < storedModSeq db user mailbox uid 0 ∧
      ∀ metadata : MessageMetadata, metadata.modSeq = 0 →
        storedModSeq db user mailbox uid 0 ≤
          (storeMessageMetadataTx user mailbox uid metadata db).getHighestModSeq user mailbox := by
  have hzero : (0 : UInt64) ≤ prev.modSeq := by grind
  have hstored : replaceModSeqTx user mailbox (some prev) 0 db =
      getNextModSeqTx user mailbox (raiseHighestModSeqTx user mailbox prev.modSeq db) := by
    simp [replaceModSeqTx]
  have hbase : (raiseHighestModSeqTx user mailbox prev.modSeq db).getHighestModSeq user mailbox ≠
      maxUint64 := by
    rcases raiseHighestModSeqTx_cases db user mailbox user mailbox prev.modSeq with
      he | ⟨_, _, _, he⟩
    · rw [he]
      exact h.1
    · rw [he]
      exact h.2 prev hprev
  constructor
  · rw [storedModSeq, hprev, hstored, getNextModSeqTx_fst]
    exact UInt64.lt_of_le_of_lt (getHighestModSeq_le_raise db user mailbox user mailbox _)
      (lt_succ_modSeq hbase)
  · intro metadata hmod
    unfold storeMessageMetadataTx
    simp only [row_getD, getHighestModSeq_putMessages, getHighestModSeq_raiseUIDNextTx, hmod]
    refine UInt64.le_trans ?_ (getHighestModSeq_le_raise _ _ _ _ _ _)
    rw [storedModSeq, hprev, hstored, getNextModSeqTx_fst, getHighestModSeq_getNextModSeqTx]
    simp

-- Creating a mailbox and counting its UIDs leave rows and ModSeqs alone.
theorem createMailboxTx_kept (h : createMailboxTx now user mailbox db = .ok (value, db')) :
    (∀ other box, db'.getHighestModSeq other box = db.getHighestModSeq other box) ∧
      ∀ other box uid, db'.row other box uid = db.row other box uid := by
  obtain ⟨b, he, rfl⟩ := createMailboxTx_ok h
  obtain ⟨_, hmod, _⟩ := ensureUIDValidityTx_ok he
  constructor
  · intro other box
    rw [getHighestModSeq_putMessages, getHighestModSeq_putMailbox]
    split_ifs with hsame
    · obtain ⟨rfl, rfl⟩ := hsame
      rw [getHighestModSeq_eq, ← hmod, Option.getD_some]
    · rfl
  · intro other box uid
    rw [row_putMessages]
    split_ifs with hsame
    · obtain ⟨rfl, rfl⟩ := hsame
      exact row_getD db user mailbox uid
    · rfl

theorem getNextUIDTx_kept {value : UInt32}
    (h : getNextUIDTx now user mailbox db = .ok (value, db')) :
    (∀ other box, db'.getHighestModSeq other box = db.getHighestModSeq other box) ∧
      ∀ other box uid, db'.row other box uid = db.row other box uid := by
  obtain ⟨b, he, _, _, rfl⟩ := getNextUIDTx_ok h
  obtain ⟨_, hmod, _⟩ := ensureUIDValidityTx_ok he
  refine ⟨fun other box => ?_, fun other box uid => rfl⟩
  rw [getHighestModSeq_putMailbox]
  split_ifs with hsame
  · obtain ⟨rfl, rfl⟩ := hsame
    rw [getHighestModSeq_eq, ← hmod]
  · rfl

theorem updateMessageMetadataFuncTx_cases {fn : MessageMetadata → Option MessageMetadata}
    (h : updateMessageMetadataFuncTx user mailbox uid fn db = .ok (value, db')) :
    db' = db ∨ ∃ prev changed, db.row user mailbox uid = some prev ∧ fn prev = some changed ∧
      (∀ other box, db'.getHighestModSeq other box =
        if user = other ∧ mailbox = box then db.getHighestModSeq user mailbox + 1
        else db.getHighestModSeq other box) ∧
      ∀ other box uid', db'.row other box uid' =
        if user = other ∧ mailbox = box ∧ uid = uid' then
          some { changed with flags := normalizeFlags changed.flags
                              modSeq := db.getHighestModSeq user mailbox + 1 }
        else db.row other box uid' := by
  unfold updateMessageMetadataFuncTx at h
  split at h
  · cases h
    exact .inl rfl
  rename_i rows hrows
  split at h
  · cases h
    exact .inl rfl
  rename_i prev hprev
  split at h
  · cases h
  rename_i changed hchanged
  cases h
  refine .inr ⟨prev, changed, by simp [Database.row, hrows, hprev], hchanged, ?_, ?_⟩
  · intro other box
    rw [getHighestModSeq_putMessages, getHighestModSeq_getNextModSeqTx]
  · intro other box uid'
    rw [row_putMessages, getNextModSeqTx_fst]
    by_cases hbox : user = other ∧ mailbox = box
    · obtain ⟨rfl, rfl⟩ := hbox
      simp [ExtTreeMap.getElem?_insert, Database.row, hrows]
    · have hno : ¬ (user = other ∧ mailbox = box ∧ uid = uid') := fun h => hbox ⟨h.1, h.2.1⟩
      rw [if_neg hbox, if_neg hno]
      simp [getNextModSeqTx]

theorem row_deleteMessageTx (uid' : UInt32) (other box : Bytes) :
    (deleteMessageTx user mailbox uid db).row other box uid' =
      if user = other ∧ mailbox = box ∧ uid = uid' then none else db.row other box uid' := by
  unfold deleteMessageTx
  split
  · rename_i hnone
    split_ifs with hsame
    · obtain ⟨rfl, rfl, rfl⟩ := hsame
      simp [Database.row, hnone]
    · rfl
  · rename_i rows hrows
    rw [row_putMessages]
    by_cases hbox : user = other ∧ mailbox = box
    · obtain ⟨rfl, rfl⟩ := hbox
      simp [ExtTreeMap.getElem?_erase, Database.row, hrows]
    · have hno : ¬ (user = other ∧ mailbox = box ∧ uid = uid') := fun h => hbox ⟨h.1, h.2.1⟩
      rw [if_neg hbox, if_neg hno]

theorem getHighestModSeq_deleteMessageTx (other box : Bytes) :
    (deleteMessageTx user mailbox uid db).getHighestModSeq other box =
      db.getHighestModSeq other box := by
  unfold deleteMessageTx
  split
  · rfl
  · rfl

end Store

end UMail.Storage
