import UMail.Storage.Operations
import UMail.Storage.View

namespace UMail.Storage

open Std (ExtTreeMap ExtTreeSet)
open Sequence (RunAll)

def Database.effectiveUIDNext (db : Database) (user mailbox : Bytes) : UInt32 :=
  ((db.record user mailbox).map MailboxRecord.nextUID).getD 1

def Database.uidValidity (db : Database) (user mailbox : Bytes) : Option UInt32 :=
  (db.record user mailbox).bind MailboxRecord.uidValidity

structure UIDView where
  uidValidity : Option UInt32
  uidNext : UInt32
  floor : Option UInt32
  holds : UInt32 → Prop

def Database.uidView (db : Database) (user mailbox : Bytes) : UIDView where
  uidValidity := db.uidValidity user mailbox
  uidNext := db.effectiveUIDNext user mailbox
  floor := db.floor user mailbox
  holds uid := (db.row user mailbox uid).isSome

variable {before after : UIDView} (v : UIDView) {uv uid : UInt32} {db : Database}
  {user mailbox : Bytes} {steps : List Step}

def UIDView.Below : Prop := ∀ uid, v.holds uid → uid < v.uidNext

-- All that one call can do to the UIDs of one mailbox: go on counting, give
-- the mailbox a UIDVALIDITY above the floor, or retire the mailbox.
inductive Advances (before after : UIDView) : Prop
  | kept (huv : after.uidValidity = before.uidValidity) (hnext : before.uidNext ≤ after.uidNext)
      (hfloor : after.floor = before.floor)
      (hrows : ∀ uid, after.holds uid → before.holds uid ∨ uid < after.uidNext)
  | assigned (hnone : before.uidValidity = none) (hfloor : after.floor = before.floor)
      (hfresh : ∀ v f, after.uidValidity = some v → after.floor = some f → f < v)
      (hrows : after.Below)
  | retired (hnone : after.uidValidity = none)
      (hfloor : after.floor = raiseFloor before.uidValidity before.floor)
      (hrows : ∀ uid, ¬ after.holds uid)

theorem Advances.refl : Advances v v :=
  .kept rfl (UInt32.le_refl _) rfl fun _ h => .inl h

theorem Advances.below (h : Advances before after) (hb : before.Below) : after.Below := by
  intro uid hu
  cases h with
  | kept _ hnext _ hrows =>
    rcases hrows uid hu with hold | hnew
    · exact UInt32.lt_of_lt_of_le (hb uid hold) hnext
    · exact hnew
  | assigned _ _ _ hrows => exact hrows uid hu
  | retired _ _ hrows => exact False.elim (hrows uid hu)

def UIDView.Retired (uidValidity : UInt32) : Prop :=
  (∃ f, v.floor = some f ∧ uidValidity ≤ f) ∧
    ∀ later, v.uidValidity = some later → uidValidity < later

theorem Advances.retired_of_retired (h : Advances before after) (hr : before.Retired uv) :
    after.Retired uv := by
  obtain ⟨⟨f, hf, hle⟩, hlater⟩ := hr
  cases h with
  | kept huv _ hfloor _ =>
    unfold UIDView.Retired
    rw [huv, hfloor]
    exact ⟨⟨f, hf, hle⟩, hlater⟩
  | assigned _ hfloor hfresh _ =>
    rw [← hfloor] at hf
    exact ⟨⟨f, hf, hle⟩, fun later hl => UInt32.lt_of_le_of_lt hle (hfresh later f hl hf)⟩
  | retired hnone hfloor _ =>
    obtain ⟨f', hf', hle'⟩ := raiseFloor_ge_floor hf
    refine ⟨⟨f', hfloor.trans hf', UInt32.le_trans hle hle'⟩, fun later hl => ?_⟩
    rw [hnone] at hl
    cases hl

def UIDView.Issued (uidValidity uid : UInt32) : Prop :=
  (v.uidValidity = some uidValidity ∧ uid < v.uidNext) ∨ v.Retired uidValidity

theorem Advances.issued (h : Advances before after) (hi : before.Issued uv uid) :
    after.Issued uv uid := by
  rcases hi with ⟨hcur, hlt⟩ | hretired
  · cases h with
    | kept huv hnext _ _ => exact .inl ⟨huv.trans hcur, UInt32.lt_of_lt_of_le hlt hnext⟩
    | assigned hnone _ _ _ =>
      rw [hnone] at hcur
      cases hcur
    | retired hnone hfloor _ =>
      obtain ⟨f, hf, hle⟩ := raiseFloor_ge_uidValidity hcur
      refine .inr ⟨⟨f, hfloor.trans hf, hle⟩, fun later hl => ?_⟩
      rw [hnone] at hl
      cases hl
  · exact .inr (h.retired_of_retired hretired)

section Transactions

variable {db : Database} {user mailbox : Bytes}

variable {now : Int} {value : Unit} {db' : Database} {uid : UInt32}
  {other box oldName newName : Bytes}

-- The condition excludes the one floor above which there is no UIDVALIDITY.
theorem nextUIDValidityTx_fresh {uv : UInt32}
    (h : nextUIDValidityTx now db (mailboxKey user mailbox) = .ok uv)
    (hfloor : db.floor user mailbox ≠ some maxUint32) {f : UInt32} (hf : db.floor user mailbox = some f) :
    f < uv := by
  unfold nextUIDValidityTx at h
  unfold Database.floor at hf hfloor
  split_ifs at h
  rcases hd : db.uidValidityFloor with _ | floors
  · simp [hd] at hf
  simp only [hd, Option.bind_some] at h hf hfloor
  rw [hf] at h hfloor
  simp only [Except.ok.injEq] at h
  subst h
  have hmax : f ≠ maxUint32 := fun he => hfloor (he ▸ rfl)
  split_ifs with hge
  · unfold maxUint32 at hmax
    grind
  · exact UInt32.not_le.mp hge

theorem uidView_putMailbox (r : MailboxRecord) :
    (db.putMailbox user mailbox r).uidView other box =
      if user = other ∧ mailbox = box
      then { db.uidView other box with uidValidity := r.uidValidity, uidNext := r.nextUID }
      else db.uidView other box := by
  unfold Database.uidView Database.uidValidity Database.effectiveUIDNext
  simp only [record_putMailbox, row_putMailbox]
  split_ifs <;> rfl

theorem uidView_putMessages (rows : ExtTreeMap UInt32 MessageMetadata) :
    (db.putMessages user mailbox rows).uidView other box =
      if user = other ∧ mailbox = box
      then { db.uidView other box with holds := fun uid => rows[uid]?.isSome }
      else db.uidView other box := by
  unfold Database.uidView Database.uidValidity Database.effectiveUIDNext
  simp only [row_putMessages]
  split_ifs <;> rfl

theorem uidView_uidValidity (db : Database) (user mailbox : Bytes) :
    (db.uidView user mailbox).uidValidity = (db.recordOrNew user mailbox).uidValidity := by
  simp only [Database.uidView, Database.uidValidity, Database.recordOrNew]
  cases db.record user mailbox <;> rfl

theorem uidView_uidNext (db : Database) (user mailbox : Bytes) :
    (db.uidView user mailbox).uidNext = (db.recordOrNew user mailbox).nextUID := by
  simp only [Database.uidView, Database.effectiveUIDNext, Database.recordOrNew]
  cases db.record user mailbox <;> rfl

-- The calls that create a mailbox record on the way all write it this way:
-- with a UIDVALIDITY and with a counter that has not gone back.
theorem advances_putMailbox_ensured {b r : MailboxRecord}
    (he : ensureUIDValidityTx now db (mailboxKey user mailbox) (db.recordOrNew user mailbox) = .ok b)
    (hfloor : db.floor user mailbox ≠ some maxUint32) (hbelow : (db.uidView user mailbox).Below)
    (huv : r.uidValidity = b.uidValidity) (hnext : b.nextUID ≤ r.nextUID) :
    Advances (db.uidView other box) ((db.putMailbox user mailbox r).uidView other box) := by
  rw [uidView_putMailbox]
  split_ifs with hsame
  · obtain ⟨rfl, rfl⟩ := hsame
    obtain ⟨hn, _, hcase⟩ := ensureUIDValidityTx_ok he
    have hle : (db.uidView user mailbox).uidNext ≤ r.nextUID := by
      rw [uidView_uidNext]
      unfold MailboxRecord.nextUID at hnext ⊢
      rwa [hn] at hnext
    rcases hcase with hkept | ⟨hnone, uv, huv', hok⟩
    · refine .kept ?_ hle rfl fun uid h => .inl h
      rw [uidView_uidValidity, huv, hkept]
    refine .assigned ?_ rfl ?_ fun uid h => UInt32.lt_of_lt_of_le (hbelow uid h) hle
    · rw [uidView_uidValidity, hnone]
    · intro v f hv hf
      simp only [huv, huv', Option.some.injEq] at hv
      exact hv ▸ nextUIDValidityTx_fresh hok hfloor hf
  · exact Advances.refl _

theorem advances_putMessages {rows : ExtTreeMap UInt32 MessageMetadata}
    (hrows : ∀ uid, rows[uid]?.isSome → (db.row user mailbox uid).isSome ∨
      uid < db.effectiveUIDNext user mailbox) :
    Advances (db.uidView other box) ((db.putMessages user mailbox rows).uidView other box) := by
  rw [uidView_putMessages]
  split_ifs with hsame
  · obtain ⟨rfl, rfl⟩ := hsame
    exact .kept rfl (UInt32.le_refl _) rfl hrows
  · exact Advances.refl _

theorem nextUID_pos (b : MailboxRecord) : 0 < b.nextUID := by
  unfold MailboxRecord.nextUID
  split_ifs with h
  · decide
  · grind

theorem createMailboxTx_advances (h : createMailboxTx now user mailbox db = .ok (value, db'))
    (hfloor : db.floor user mailbox ≠ some maxUint32)
    (hbelow : ∀ other box, (db.uidView other box).Below) :
    Advances (db.uidView other box) (db'.uidView other box) := by
  obtain ⟨b, he, rfl⟩ := createMailboxTx_ok h
  -- Creating the messages bucket adds no rows.
  have hview : ∀ r : MailboxRecord, ((db.putMailbox user mailbox r).putMessages user mailbox
      ((db.messagesOf user mailbox).getD ∅)).uidView other box =
        (db.putMailbox user mailbox r).uidView other box := by
    intro r
    rw [uidView_putMessages]
    split_ifs with hsame
    · obtain ⟨rfl, rfl⟩ := hsame
      simp only [row_getD]
      rfl
    · rfl
  rw [hview]
  refine advances_putMailbox_ensured he hfloor (hbelow user mailbox) ?_ ?_
  · rfl
  · unfold MailboxRecord.nextUID
    cases b.uidNext with
    | none => exact UInt32.le_refl _
    | some n => exact UInt32.le_refl _

theorem nextUID_succ {b : MailboxRecord} (hmax : uid ≠ maxUint32) :
    ({ b with uidNext := some (uid + 1) } : MailboxRecord).nextUID = uid + 1 := by
  unfold maxUint32 at hmax
  have hne : uid + 1 ≠ 0 := by grind
  simp [MailboxRecord.nextUID, hne]

theorem lt_succ (hmax : uid ≠ maxUint32) : uid < uid + 1 := by
  unfold maxUint32 at hmax
  grind

theorem getNextUIDTx_advances (h : getNextUIDTx now user mailbox db = .ok (uid, db'))
    (hfloor : db.floor user mailbox ≠ some maxUint32)
    (hbelow : ∀ other box, (db.uidView other box).Below) :
    Advances (db.uidView other box) (db'.uidView other box) := by
  obtain ⟨b, he, hu, hmax, rfl⟩ := getNextUIDTx_ok h
  refine advances_putMailbox_ensured he hfloor (hbelow user mailbox) ?_ ?_
  · rfl
  · rw [nextUID_succ hmax, ← hu]
    exact UInt32.le_of_lt (lt_succ hmax)

-- A successful call leaves the mailbox with the UIDVALIDITY its UID was
-- issued under, and the counter above the UID.
theorem getNextUIDTx_issued (h : getNextUIDTx now user mailbox db = .ok (uid, db')) :
    ∃ uv, db'.uidValidity user mailbox = some uv ∧ (db'.uidView user mailbox).Issued uv uid := by
  obtain ⟨b, he, hu, hmax, rfl⟩ := getNextUIDTx_ok h
  obtain ⟨uv, huv⟩ := ensureUIDValidityTx_isSome he
  refine ⟨uv, ?_, .inl ⟨?_, ?_⟩⟩
  · simp [Database.uidValidity, huv]
  · rw [uidView_putMailbox]
    simp [huv]
  · rw [uidView_putMailbox]
    simp only
    rw [nextUID_succ hmax]
    exact lt_succ hmax

theorem getNextUIDTx_uid (h : getNextUIDTx now user mailbox db = .ok (uid, db')) :
    uid = (db.uidView user mailbox).uidNext := by
  obtain ⟨b, he, hu, _, rfl⟩ := getNextUIDTx_ok h
  obtain ⟨hn, _, _⟩ := ensureUIDValidityTx_ok he
  rw [hu, uidView_uidNext]
  unfold MailboxRecord.nextUID
  rw [hn]

theorem uidView_getNextModSeqTx :
    ((getNextModSeqTx user mailbox db).2).uidView other box = db.uidView other box := by
  unfold getNextModSeqTx
  rw [uidView_putMailbox]
  split_ifs with hsame
  · obtain ⟨rfl, rfl⟩ := hsame
    have huv := uidView_uidValidity db user mailbox
    have hnext := uidView_uidNext db user mailbox
    cases hv : db.uidView user mailbox with
    | mk uv next floor holds =>
      rw [hv] at huv hnext
      subst huv hnext
      rfl
  · rfl

theorem uidView_raiseHighestModSeqTx (v : UInt64) :
    (raiseHighestModSeqTx user mailbox v db).uidView other box = db.uidView other box := by
  unfold raiseHighestModSeqTx
  split
  · rfl
  split
  · rfl
  rename_i b hb
  split
  · rfl
  rw [uidView_putMailbox]
  split_ifs with hsame
  · obtain ⟨rfl, rfl⟩ := hsame
    simp only [Database.uidView, Database.uidValidity, Database.effectiveUIDNext, hb]
    rfl
  · rfl

theorem uidView_replaceModSeqTx (previous : Option MessageMetadata) (modSeq : UInt64) :
    ((replaceModSeqTx user mailbox previous modSeq db).2).uidView other box =
      db.uidView other box := by
  unfold replaceModSeqTx
  split
  · rfl
  · split
    · rw [uidView_getNextModSeqTx, uidView_raiseHighestModSeqTx]
    · rfl

theorem record_isSome_raiseHighestModSeqTx (v : UInt64)
    (h : (db.record user mailbox).isSome) :
    ((raiseHighestModSeqTx user mailbox v db).record user mailbox).isSome := by
  unfold raiseHighestModSeqTx
  split
  · exact h
  split
  · exact h
  · split
    · exact h
    · simp

theorem record_isSome_replaceModSeqTx (previous : Option MessageMetadata) (modSeq : UInt64)
    (h : (db.record user mailbox).isSome) :
    ((replaceModSeqTx user mailbox previous modSeq db).2.record user mailbox).isSome := by
  unfold replaceModSeqTx
  split
  · exact h
  · split
    · simp [getNextModSeqTx]
    · exact h

-- The counter never goes back, and ends above the UID whenever the mailbox
-- has a record and there is a larger UID.
theorem raiseUIDNextTx_kept (db : Database) (user mailbox : Bytes) (uid : UInt32)
    (other box : Bytes) :
    ((raiseUIDNextTx user mailbox uid db).uidView other box).uidValidity =
        (db.uidView other box).uidValidity ∧
      (db.uidView other box).uidNext ≤
        ((raiseUIDNextTx user mailbox uid db).uidView other box).uidNext ∧
      ((raiseUIDNextTx user mailbox uid db).uidView other box).floor =
        (db.uidView other box).floor ∧
      ((raiseUIDNextTx user mailbox uid db).uidView other box).holds =
        (db.uidView other box).holds := by
  unfold raiseUIDNextTx
  split
  · exact ⟨rfl, UInt32.le_refl _, rfl, rfl⟩
  rename_i b hb
  split
  · rename_i hcond
    obtain ⟨hmax, hle⟩ := hcond
    rw [uidView_putMailbox]
    split_ifs with hsame
    · obtain ⟨rfl, rfl⟩ := hsame
      refine ⟨?_, ?_, rfl, rfl⟩
      · simp [Database.uidView, Database.uidValidity, hb]
      · rw [nextUID_succ hmax]
        simp only [Database.uidView, Database.effectiveUIDNext, hb, Option.map_some,
          MailboxRecord.nextUID]
        unfold maxUint32 at hmax
        split_ifs <;> grind
    · exact ⟨rfl, UInt32.le_refl _, rfl, rfl⟩
  · exact ⟨rfl, UInt32.le_refl _, rfl, rfl⟩

theorem raiseUIDNextTx_above (h : uid = 0 ∨ uid ≠ maxUint32 ∧ (db.record user mailbox).isSome) :
    uid < (raiseUIDNextTx user mailbox uid db).effectiveUIDNext user mailbox := by
  rcases h with rfl | ⟨hmax, hsome⟩
  · have hpos : 0 < ((raiseUIDNextTx user mailbox 0 db).uidView user mailbox).uidNext := by
      rw [uidView_uidNext]
      exact nextUID_pos _
    exact hpos
  · obtain ⟨b, hb⟩ := Option.isSome_iff_exists.mp hsome
    simp only [raiseUIDNextTx, hb, Database.effectiveUIDNext]
    split_ifs with hcond
    · simp only [record_putMailbox, and_self, if_true, Option.map_some]
      rw [nextUID_succ hmax]
      exact lt_succ hmax
    have hlt : uid < b.uidNext.getD 0 := UInt32.not_le.mp fun hle => hcond ⟨hmax, hle⟩
    simp only [hb, Option.map_some, MailboxRecord.nextUID]
    split_ifs with hzero
    · rw [hzero] at hlt
      exact False.elim (by grind)
    · exact hlt

theorem storeMessageMetadataTx_advances (metadata : MessageMetadata)
    (hrange : uid = 0 ∨ uid ≠ maxUint32 ∧ (db.record user mailbox).isSome) :
    Advances (db.uidView other box)
      ((storeMessageMetadataTx user mailbox uid metadata db).uidView other box) := by
  let rows := (db.messagesOf user mailbox).getD ∅
  let fresh := replaceModSeqTx user mailbox rows[uid]? metadata.modSeq db
  let raised := raiseHighestModSeqTx user mailbox fresh.1 fresh.2
  have hview : ∀ other box, raised.uidView other box = db.uidView other box := fun other box => by
    rw [uidView_raiseHighestModSeqTx, uidView_replaceModSeqTx]
  have habove : uid < (raiseUIDNextTx user mailbox uid raised).effectiveUIDNext user mailbox :=
    raiseUIDNextTx_above (hrange.imp_right fun h => ⟨h.1,
      record_isSome_raiseHighestModSeqTx _ (record_isSome_replaceModSeqTx _ _ h.2)⟩)
  obtain ⟨huv, hnext, hfloor, hholds⟩ :=
    raiseUIDNextTx_kept raised user mailbox uid other box
  rw [hview] at huv hnext hfloor hholds
  change Advances _ (((raiseUIDNextTx user mailbox uid raised).putMessages user mailbox
    (rows.insert uid { metadata with modSeq := fresh.1 })).uidView other box)
  rw [uidView_putMessages]
  split_ifs with hsame
  · obtain ⟨rfl, rfl⟩ := hsame
    refine .kept huv hnext hfloor fun u hu => ?_
    simp only [ExtTreeMap.getElem?_insert, Std.LawfulEqOrd.compare_eq_iff_eq] at hu
    split_ifs at hu with hkey
    · exact .inr (hkey ▸ habove)
    refine .inl ?_
    change (db.row user mailbox u).isSome
    rw [← row_getD]
    exact hu
  · exact .kept huv hnext hfloor fun u hu => .inl (hholds ▸ hu)

theorem updateMessageMetadataFuncTx_advances {fn : MessageMetadata → Option MessageMetadata}
    (h : updateMessageMetadataFuncTx user mailbox uid fn db = .ok (value, db')) :
    Advances (db.uidView other box) (db'.uidView other box) := by
  unfold updateMessageMetadataFuncTx at h
  split at h
  · cases h
    exact Advances.refl _
  rename_i rows hrows
  split at h
  · cases h
    exact Advances.refl _
  rename_i metadata hm
  split at h
  · cases h
  cases h
  rw [← uidView_getNextModSeqTx]
  refine advances_putMessages fun u hu => .inl ?_
  change (db.row user mailbox u).isSome
  simp only [Database.row, hrows, Option.bind_some]
  simp only [ExtTreeMap.getElem?_insert, Std.LawfulEqOrd.compare_eq_iff_eq] at hu
  split_ifs at hu with hkey
  · rw [← hkey, hm]
    rfl
  · exact hu

theorem deleteMessageTx_advances :
    Advances (db.uidView other box) ((deleteMessageTx user mailbox uid db).uidView other box) := by
  unfold deleteMessageTx
  split
  · exact Advances.refl _
  rename_i rows hrows
  refine advances_putMessages fun u hu => .inl ?_
  simp only [Database.row, hrows]
  simp only [ExtTreeMap.getElem?_erase] at hu
  split_ifs at hu with hkey
  · cases hu
  · exact hu

theorem advances_retired (hrecord : db'.record other box = none)
    (hrows : db'.messagesOf other box = none)
    (hfloor : db'.floor other box = raiseFloor (db.uidValidity other box) (db.floor other box)) :
    Advances (db.uidView other box) (db'.uidView other box) := by
  refine .retired ?_ hfloor fun uid h => ?_
  · simp [Database.uidView, Database.uidValidity, hrecord]
  · simp [Database.uidView, Database.row, hrows] at h

theorem uidView_congr (hrecord : db'.record other box = db.record other box)
    (hrows : db'.messagesOf other box = db.messagesOf other box)
    (hfloor : db'.floor other box = db.floor other box) :
    db'.uidView other box = db.uidView other box := by
  simp only [Database.uidView, Database.uidValidity, Database.effectiveUIDNext, Database.row,
    hrecord, hrows, hfloor]

theorem deleteMailboxTx_advances :
    Advances (db.uidView other box) ((deleteMailboxTx user mailbox db).uidView other box) := by
  unfold deleteMailboxTx
  by_cases hsame : user = other ∧ mailbox = box
  · obtain ⟨rfl, rfl⟩ := hsame
    exact advances_retired (by simp) (by simp) (by simp [Database.uidValidity])
  have hview : ((recordUIDValidityFloorTx db (mailboxKey user mailbox)).dropMailbox
      user mailbox).uidView other box = db.uidView other box :=
    uidView_congr (by simp [hsame]) (by simp [hsame]) (by simp [hsame])
  rw [hview]
  exact Advances.refl _

theorem purgeUserTx_advances :
    Advances (db.uidView other box) ((purgeUserTx user db).uidView other box) := by
  by_cases hsame : user = other
  · subst hsame
    refine advances_retired ?_ ?_ ?_
    · simp [record_purgeUserTx]
    · simp [messagesOf_purgeUserTx]
    · simp [floor_purgeUserTx, Database.uidValidity]
  · have hview : (purgeUserTx user db).uidView other box = db.uidView other box := by
      refine uidView_congr ?_ ?_ ?_
      · simp [record_purgeUserTx, hsame]
      · simp [messagesOf_purgeUserTx, hsame]
      · simp [floor_purgeUserTx, hsame]
    rw [hview]
    exact Advances.refl _

theorem renamedUIDValidity_fresh {uidValidity : Option UInt32} {v f : UInt32}
    (hfloor : db.floor user mailbox ≠ some maxUint32) (hf : db.floor user mailbox = some f)
    (hv : renamedUIDValidity db (mailboxKey user mailbox) uidValidity = some v) : f < v := by
  unfold Database.floor at hf hfloor
  unfold renamedUIDValidity at hv
  rcases hd : db.uidValidityFloor with _ | floors
  · simp [hd] at hf
  simp only [hd, Option.bind_some] at hf hv hfloor
  simp only [hf] at hv
  split_ifs at hv with hge
  · cases hv
    exact lt_succ fun hmax => hfloor (by rw [hf, hmax])
  · rw [hv] at hge
    exact UInt32.not_le.mp hge

-- The renamed mailbox keeps its rows and its counter under the new name. The
-- old name is retired, and every other mailbox is left alone.
theorem renameMailboxTx_moves {old : MailboxRecord} (hne : oldName ≠ newName)
    (h : renameMailboxTx now user oldName newName db = .ok (value, db'))
    (hold : db.record user oldName = some old) (other box : Bytes) :
    (db'.record other box =
        if user = other ∧ oldName = box then none
        else if user = other ∧ newName = box
        then some { old with
          uidValidity := renamedUIDValidity db (mailboxKey user newName) old.uidValidity }
        else db.record other box) ∧
      (db'.messagesOf other box =
        if user = other ∧ oldName = box then none
        else if user = other ∧ newName = box then db.messagesOf user oldName
        else db.messagesOf other box) ∧
      db'.floor other box =
        if user = other ∧ oldName = box
        then raiseFloor old.uidValidity (db.floor user oldName) else db.floor other box := by
  have hfree := renameMailboxTx_free h
  unfold renameMailboxTx at h
  split at h
  · cases h
  rw [hold] at h
  have hne' : ¬ newName = oldName := fun he => hne he.symm
  cases hrows : db.messagesOf user oldName with
  | none =>
    rw [hrows] at h
    cases h
    refine ⟨?_, ?_, ?_⟩
    · simp
    · simp only [messagesOf_moveACLTx, messagesOf_dropMailbox,
        messagesOf_recordUIDValidityFloorTx, messagesOf_putMailbox]
      split_ifs with h₁ h₂
      · rfl
      · rw [← h₂.1, ← h₂.2, hfree.2]
      · rfl
    · simp [hold, hne']
  | some rows =>
    rw [hrows] at h
    cases h
    refine ⟨?_, ?_, ?_⟩
    · simp
    · simp
    · simp [hold, hne']

theorem renameMailboxTx_advances (hne : oldName ≠ newName)
    (h : renameMailboxTx now user oldName newName db = .ok (value, db'))
    (hfloor : db.floor user newName ≠ some maxUint32)
    (hbelow : ∀ other box, (db.uidView other box).Below) :
    Advances (db.uidView other box) (db'.uidView other box) := by
  have hnone : (db.uidView user newName).uidValidity = none := by
    simp [Database.uidView, Database.uidValidity, (renameMailboxTx_free h).1]
  cases hold : db.record user oldName with
  | none =>
    obtain ⟨uv, hn, rfl⟩ := renameMailboxTx_absent h hold
    rw [uidView_putMessages, uidView_putMailbox]
    split_ifs with hsame
    · obtain ⟨rfl, rfl⟩ := hsame
      refine .assigned hnone rfl (fun v f hv hf => ?_) fun uid hu => ?_
      · cases hv
        exact nextUIDValidityTx_fresh hn hfloor hf
      · simp at hu
    · exact Advances.refl _
  | some old =>
    obtain ⟨hr, hm, hf⟩ := renameMailboxTx_moves hne h hold other box
    by_cases hsource : user = other ∧ oldName = box
    · obtain ⟨rfl, rfl⟩ := hsource
      simp only at hr hm hf
      exact advances_retired hr hm (by rw [hf]; simp [Database.uidValidity, hold])
    rw [if_neg hsource] at hr hm hf
    by_cases hdest : user = other ∧ newName = box
    · obtain ⟨rfl, rfl⟩ := hdest
      simp only [and_self, if_true] at hr hm
      refine .assigned hnone hf (fun v f hv hf' => ?_) fun uid hu => ?_
      · simp only [Database.uidView, Database.uidValidity, hr] at hv
        exact renamedUIDValidity_fresh hfloor (hf ▸ hf') hv
      · have hlt := hbelow user oldName uid (by
          simpa only [Database.uidView, Database.row, hm] using hu)
        simp only [Database.uidView, Database.effectiveUIDNext, hr, hold, Option.map_some] at hlt ⊢
        exact hlt
    · rw [if_neg hdest] at hr hm
      rw [uidView_congr hr hm hf]
      exact Advances.refl _

end Transactions

-- A row gets a UID that the counter can be lifted above, in a mailbox that has
-- a counter, and a UIDVALIDITY is never assigned above the largest floor.
def Regular (db : Database) (step : Step) : Prop :=
  step.env.fault = false → match step.op with
    | .storeMessageMetadata user mailbox uid (some _) =>
      uid = 0 ∨ uid ≠ maxUint32 ∧ (db.record user mailbox).isSome
    | .createMailbox user mailbox | .getNextUID user mailbox | .getNextModSeq user mailbox =>
      db.floor user mailbox ≠ some maxUint32
    | .renameMailbox user _ newName => db.floor user newName ≠ some maxUint32
    | _ => True

theorem advances_update {α : Type} {env : Env} {tx : Database → Except StorageError (α × Database)}
    (h : ∀ value db', env.fault = false → tx db = .ok (value, db') →
      Advances (db.uidView user mailbox) (db'.uidView user mailbox)) :
    Advances (db.uidView user mailbox) ((db.update env tx).2.uidView user mailbox) :=
  update_cases (motive := fun out => Advances _ (out.2.uidView user mailbox)) (fun _ => Advances.refl _) h

theorem step_advances {step : Step} (hregular : Regular db step)
    (hbelow : ∀ user mailbox, (db.uidView user mailbox).Below) (user mailbox : Bytes) :
    Advances (db.uidView user mailbox) ((step.apply db).uidView user mailbox) := by
  obtain ⟨op, env⟩ := step
  cases op with
  | createMailbox u m =>
    refine advances_update fun value db' hfault h => ?_
    exact createMailboxTx_advances h (hregular hfault) hbelow
  | deleteMailbox u m =>
    simp only [Step.apply, Op.apply, Database.deleteMailbox]
    split_ifs
    · exact Advances.refl _
    · exact Advances.refl _
    · exact deleteMailboxTx_advances
    · exact deleteMailboxTx_advances
  | renameMailbox u oldName newName =>
    simp only [Step.apply, Op.apply, Database.renameMailbox]
    split_ifs with hne
    · exact Advances.refl _
    · refine advances_update fun value db' hfault h => ?_
      exact renameMailboxTx_advances hne h (hregular hfault) hbelow
  | getNextUID u m =>
    refine advances_update fun value db' hfault h => ?_
    exact getNextUIDTx_advances h (hregular hfault) hbelow
  | getNextModSeq u m =>
    refine advances_update fun value db' hfault h => ?_
    obtain ⟨b, he, h⟩ := Fallible.ok_of_bind h
    cases h
    exact advances_putMailbox_ensured (r := b.bumpModSeq.2) he (hregular hfault)
      (hbelow u m) rfl (UInt32.le_refl _)
  | storeMessageMetadata u m uid metadata =>
    rcases metadata with _ | metadata
    · exact Advances.refl _
    refine advances_update fun value db' hfault h => ?_
    cases h
    exact storeMessageMetadataTx_advances _ (hregular hfault)
  | updateMessageMetadataFunc u m uid fn =>
    refine advances_update fun value db' hfault h => ?_
    exact updateMessageMetadataFuncTx_advances h
  | deleteMessage u m uid =>
    refine advances_update fun value db' hfault h => ?_
    cases h
    exact deleteMessageTx_advances
  | purgeUser u =>
    refine advances_update fun value db' hfault h => ?_
    cases h
    exact purgeUserTx_advances

theorem below_run (hregular : RunAll Step.apply Regular steps db)
    (hbelow : ∀ user mailbox, (db.uidView user mailbox).Below) (user mailbox : Bytes) :
    ((run steps db).uidView user mailbox).Below :=
  RunAll.invariant (fun db => ∀ user mailbox, (db.uidView user mailbox).Below)
    (fun _ _ hgood hinv u m => (step_advances hgood hinv u m).below (hinv u m))
    hregular hbelow user mailbox

theorem issued_run (hregular : RunAll Step.apply Regular steps db)
    (hbelow : ∀ user mailbox, (db.uidView user mailbox).Below)
    (hissued : (db.uidView user mailbox).Issued uv uid) :
    ((run steps db).uidView user mailbox).Issued uv uid := by
  have h := RunAll.invariant (fun db => (∀ user mailbox, (db.uidView user mailbox).Below) ∧
    (db.uidView user mailbox).Issued uv uid) ?_ hregular ⟨hbelow, hissued⟩
  · exact h.2
  · intro d step hgood hinv
    exact ⟨fun u m => (step_advances hgood hinv.1 u m).below (hinv.1 u m),
      (step_advances hgood hinv.1 user mailbox).issued hinv.2⟩

theorem below_empty (user mailbox : Bytes) : (Database.empty.uidView user mailbox).Below := by
  intro uid h
  simp [Database.uidView, Database.row, Database.messagesOf, Database.empty] at h

theorem getNextUID_ok {env : Env} {db' : Database}
    (h : db.getNextUID env user mailbox = (.ok uid, db')) :
    getNextUIDTx env.now user mailbox db = .ok (uid, db') := by
  unfold Database.getNextUID Database.update at h
  split at h
  · cases h
  split at h
  · rename_i he
    cases h
    exact he
  · cases h

-- The two promises about UIDs, for one sequence of calls on an empty database.
structure UIDSafe (steps : List Step) : Prop where
  rows_below : ∀ before after, steps = before ++ after → ∀ user mailbox uid,
    ((run before .empty).row user mailbox uid).isSome →
      uid < (run before .empty).effectiveUIDNext user mailbox
  no_reissue : ∀ before middle after user mailbox env₁ env₂ uid db₁ db₂,
    steps = before ++ ⟨.getNextUID user mailbox, env₁⟩ :: middle ++
      ⟨.getNextUID user mailbox, env₂⟩ :: after →
    (run before .empty).getNextUID env₁ user mailbox = (.ok uid, db₁) →
    (run middle db₁).getNextUID env₂ user mailbox = (.ok uid, db₂) →
      db₁.uidValidity user mailbox ≠ db₂.uidValidity user mailbox

-- A row stored under UID 5 before any other call leaves the next UID at 1,
-- because the mailbox has no record whose counter could be lifted.
theorem uidSafe_fails_without_record :
    ¬ UIDSafe [⟨.storeMessageMetadata (bytes "ann") (bytes "INBOX") 5 (some .empty),
      ⟨0, false, false⟩⟩] := by
  intro h
  have hlt := h.rows_below [_] [] rfl (bytes "ann") (bytes "INBOX") 5 (by decide)
  revert hlt
  decide

instance (db : Database) : (step : Step) → Decidable (Regular db step)
  | ⟨.storeMessageMetadata user mailbox uid (some _), env⟩ =>
    inferInstanceAs (Decidable (env.fault = false →
      uid = 0 ∨ uid ≠ maxUint32 ∧ (db.record user mailbox).isSome))
  | ⟨.createMailbox user mailbox, env⟩ | ⟨.getNextUID user mailbox, env⟩
  | ⟨.getNextModSeq user mailbox, env⟩ | ⟨.renameMailbox user _ mailbox, env⟩ =>
    inferInstanceAs (Decidable (env.fault = false → db.floor user mailbox ≠ some maxUint32))
  | ⟨.storeMessageMetadata _ _ _ none, _⟩ | ⟨.deleteMailbox _ _, _⟩
  | ⟨.updateMessageMetadataFunc _ _ _ _, _⟩ | ⟨.deleteMessage _ _ _, _⟩ | ⟨.purgeUser _, _⟩ =>
    isTrue fun _ => trivial

theorem uidSafe_of_regular (steps : List Step) (hregular : RunAll Step.apply Regular steps .empty) :
    UIDSafe steps where
  rows_below := by
    rintro before after rfl user mailbox uid hrow
    rw [RunAll.append] at hregular
    exact below_run hregular.1 below_empty user mailbox uid hrow
  no_reissue := by
    rintro before middle after user mailbox env₁ env₂ uid db₁ db₂ rfl h₁ h₂ hsame
    have hdb₁ : (⟨.getNextUID user mailbox, env₁⟩ : Step).apply (run before .empty) = db₁ :=
      congrArg Prod.snd h₁
    simp only [RunAll.append, RunAll, Sequence.run_append, Sequence.run_cons, hdb₁] at hregular
    obtain ⟨⟨hbefore, hfirst, hmiddle⟩, hsecond, _⟩ := hregular
    have hbelow := below_run hbefore below_empty
    have hbelow₁ : ∀ u m, (db₁.uidView u m).Below := fun u m => by
      rw [← hdb₁]
      exact (step_advances hfirst hbelow u m).below (hbelow u m)
    obtain ⟨uv, huv, hissued⟩ := getNextUIDTx_issued (getNextUID_ok h₁)
    have huid := getNextUIDTx_uid (getNextUID_ok h₂)
    rw [huv] at hsame
    -- The first UID is still below the counter, or its UIDVALIDITY is retired.
    rcases issued_run hmiddle hbelow₁ hissued with ⟨_, hlt⟩ | hretired
    · rw [← huid] at hlt
      exact UInt32.lt_irrefl _ hlt
    have hdb₂ : (⟨.getNextUID user mailbox, env₂⟩ : Step).apply (run middle db₁) = db₂ :=
      congrArg Prod.snd h₂
    have hadvance := step_advances hsecond (below_run hmiddle hbelow₁) user mailbox
    rw [hdb₂] at hadvance
    exact UInt32.lt_irrefl _ ((hadvance.retired_of_retired hretired).2 uv hsame.symm)

def recreateSteps : List Step :=
  let env : Env := ⟨1700000000, false, false⟩
  [⟨.createMailbox (bytes "ann") (bytes "Work"), env⟩,
   ⟨.getNextUID (bytes "ann") (bytes "Work"), env⟩,
   ⟨.storeMessageMetadata (bytes "ann") (bytes "Work") 1 (some .empty), env⟩,
   ⟨.deleteMailbox (bytes "ann") (bytes "Work"), env⟩,
   ⟨.createMailbox (bytes "ann") (bytes "Work"), env⟩,
   ⟨.getNextUID (bytes "ann") (bytes "Work"), env⟩]

theorem uidSafe_recreate : RunAll Step.apply Regular recreateSteps .empty ∧ UIDSafe recreateSteps :=
  have hregular : RunAll Step.apply Regular recreateSteps .empty := by decide
  ⟨hregular, uidSafe_of_regular recreateSteps hregular⟩

end UMail.Storage
