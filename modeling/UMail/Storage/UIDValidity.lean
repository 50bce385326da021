import UMail.Storage.UIDSafety

namespace UMail.Storage

open Std (ExtTreeMap)
open Sequence (RunAll)

def Database.validity (db : Database) (user mailbox : Bytes) : Option (Option UInt32) :=
  (db.record user mailbox).map MailboxRecord.uidValidity

def Database.reportedUIDValidity (db : Database) (user mailbox : Bytes) : Option UInt32 :=
  (db.validity user mailbox).map fun uv => uv.getD 0

def Op.assigns : Op → Option (Bytes × Bytes)
  | .createMailbox user mailbox | .getNextUID user mailbox | .getNextModSeq user mailbox =>
    some (user, mailbox)
  | .renameMailbox user _ newName => some (user, newName)
  | _ => none

def Step.recreates (db : Database) (step : Step) : Bool :=
  step.op.assigns.any fun box => (db.floor box.1 box.2).isSome &&
    (db.uidValidity box.1 box.2).isNone && ((step.apply db).uidValidity box.1 box.2).isSome

def recreations : List Step → Database → Nat
  | [], _ => 0
  | step :: rest, db => (step.recreates db).toNat + recreations rest (step.apply db)

-- Where a mailbox is after a call, if it still is anywhere.
def Step.follow (db : Database) (step : Step) (box : Bytes × Bytes) : Option (Bytes × Bytes) :=
  let moved := match step.op with
    | .renameMailbox user oldName newName =>
      if box = (user, oldName) ∧ ((step.apply db).record user oldName).isNone
        then (user, newName) else box
    | _ => box
  if ((step.apply db).record moved.1 moved.2).isSome then some moved else none

def followAll : List Step → Database → Bytes × Bytes → Option (Bytes × Bytes)
  | [], _, box => some box
  | step :: rest, db, box =>
    (step.follow db box).bind fun moved => followAll rest (step.apply db) moved

-- A name that comes back has a larger UIDVALIDITY than it ever had, and a
-- mailbox that has issued a UID has one that is not zero.
structure ValidityGrows (steps : List Step) : Prop where
  never_back : ∀ first middle last rest, steps = first ++ middle ++ last ++ rest →
    ∀ user mailbox old new, (run first .empty).reportedUIDValidity user mailbox = some old →
      (run (first ++ middle) .empty).record user mailbox = none →
      (run (first ++ middle ++ last) .empty).reportedUIDValidity user mailbox = some new → old < new
  nonzero : ∀ before env user mailbox uid db after rest box,
    steps = before ++ ⟨.getNextUID user mailbox, env⟩ :: after ++ rest →
    (run before .empty).getNextUID env user mailbox = (.ok uid, db) →
    followAll after db (user, mailbox) = some box →
      ∃ v, (run after db).reportedUIDValidity box.1 box.2 = some v ∧ v ≠ 0

def InRange (step : Step) : Prop := 0 ≤ step.env.now ∧ step.env.now ≤ 0x7FFFFFFF

-- A message is stored in a mailbox that is deleted while it arrives. A change of
-- its flags then makes a record that has a modification sequence alone.
def revived : List Step :=
  [⟨.getNextUID (bytes "ann") (bytes "work"), ⟨7, false, false⟩⟩,
    ⟨.deleteMailbox (bytes "ann") (bytes "work"), ⟨7, false, false⟩⟩,
    ⟨.storeMessageMetadata (bytes "ann") (bytes "work") 1 (some .empty), ⟨7, false, false⟩⟩,
    ⟨.updateMessageMetadataFunc (bytes "ann") (bytes "work") 1 some, ⟨7, false, false⟩⟩]

theorem validityGrows_fails_revived :
    ¬ ∀ steps : List Step, recreations steps .empty < 2 ^ 31 → (∀ step ∈ steps, InRange step) →
      ValidityGrows steps := by
  intro h
  have hgrows := h revived (by decide) (by simp [revived, InRange])
  have hless := hgrows.never_back (revived.take 1) ((revived.drop 1).take 1) (revived.drop 2) [] rfl
    (bytes "ann") (bytes "work") 7 0 (by decide) (by decide) (by decide)
  revert hless
  decide

-- With no floor to lift it, a UIDVALIDITY taken at the beginning of the epoch is
-- zero too.
example : (run [⟨.getNextUID (bytes "ann") (bytes "INBOX"), ⟨0, false, false⟩⟩]
    .empty).reportedUIDValidity (bytes "ann") (bytes "INBOX") = some 0 := by decide

-- No UIDVALIDITY is taken from the clock at zero, and a modification sequence is
-- drawn for a message only where there is a mailbox.
def Dated (db : Database) (step : Step) : Prop :=
  step.env.fault = false → match step.op with
    | .createMailbox user mailbox | .getNextUID user mailbox | .getNextModSeq user mailbox =>
      db.uidValidity user mailbox = none → step.env.now ≠ 0
    | .renameMailbox user oldName _ => db.record user oldName = none → step.env.now ≠ 0
    | .storeMessageMetadata user mailbox uid (some _) =>
      (db.record user mailbox).isSome ∨ db.row user mailbox uid = none
    | .updateMessageMetadataFunc user mailbox uid _ =>
      (db.record user mailbox).isSome ∨ db.row user mailbox uid = none
    | _ => True

instance (db : Database) : (step : Step) → Decidable (Dated db step)
  | ⟨.createMailbox user mailbox, env⟩ | ⟨.getNextUID user mailbox, env⟩
  | ⟨.getNextModSeq user mailbox, env⟩ =>
    inferInstanceAs (Decidable (env.fault = false → db.uidValidity user mailbox = none → env.now ≠ 0))
  | ⟨.renameMailbox user oldName _, env⟩ =>
    inferInstanceAs (Decidable (env.fault = false → db.record user oldName = none → env.now ≠ 0))
  | ⟨.storeMessageMetadata user mailbox uid (some _), env⟩
  | ⟨.updateMessageMetadataFunc user mailbox uid _, env⟩ =>
    inferInstanceAs (Decidable (env.fault = false →
      (db.record user mailbox).isSome ∨ db.row user mailbox uid = none))
  | ⟨.storeMessageMetadata _ _ _ none, _⟩ | ⟨.deleteMailbox _ _, _⟩ | ⟨.deleteMessage _ _ _, _⟩
  | ⟨.purgeUser _, _⟩ => isTrue fun _ => trivial

-- All that one call can do to the UIDVALIDITY of one mailbox.
inductive Succession (db : Database) (step : Step) (user mailbox : Bytes) : Prop
  | kept (hvalidity : (step.apply db).validity user mailbox = db.validity user mailbox)
      (hfloor : (step.apply db).floor user mailbox = db.floor user mailbox)
  | assigned {v : UInt32} (hop : step.op.assigns = some (user, mailbox))
      (hnone : db.uidValidity user mailbox = none)
      (hvalidity : (step.apply db).validity user mailbox = some (some v)) (hne : v ≠ 0)
      (hfresh : ∀ f, db.floor user mailbox = some f → f < v)
      (hsource : v.toNat < 2 ^ 31 ∨ (∃ f, db.floor user mailbox = some f ∧ v = f + 1) ∨
        ∃ other box, db.validity other box = some (some v))
      (hfloor : (step.apply db).floor user mailbox = db.floor user mailbox)
  | retired (hvalidity : (step.apply db).validity user mailbox = none)
      (hfloor : (step.apply db).floor user mailbox =
        raiseFloor (db.uidValidity user mailbox) (db.floor user mailbox))

section Transactions

variable {db : Database} {user mailbox : Bytes} {r b : MailboxRecord} {uid : UInt32} {value : Unit}
  {step : Step} {other box : Bytes}

theorem uidValidity_eq (db : Database) (user mailbox : Bytes) :
    db.uidValidity user mailbox = (db.validity user mailbox).join := by
  unfold Database.uidValidity Database.validity
  cases db.record user mailbox <;> rfl

theorem validity_putMailbox : (db.putMailbox user mailbox r).validity other box =
      if user = other ∧ mailbox = box then some r.uidValidity else db.validity other box := by
  unfold Database.validity
  rw [record_putMailbox]
  split_ifs <;> rfl

@[simp] theorem validity_putMessages (rows : ExtTreeMap UInt32 MessageMetadata) :
    (db.putMessages user mailbox rows).validity other box = db.validity other box := by
  unfold Database.validity
  rw [record_putMessages]

theorem validity_putMailbox_same (hb : db.record user mailbox = some b)
    (huv : r.uidValidity = b.uidValidity) :
    (db.putMailbox user mailbox r).validity other box = db.validity other box := by
  rw [validity_putMailbox]
  split_ifs with hsame
  · obtain ⟨rfl, rfl⟩ := hsame
    rw [Database.validity, hb, Option.map_some, huv]
  · rfl

theorem validity_raiseHighestModSeqTx (v : UInt64) :
    (raiseHighestModSeqTx user mailbox v db).validity other box = db.validity other box := by
  unfold raiseHighestModSeqTx
  split
  · rfl
  split
  · rfl
  rename_i b hb
  split
  · rfl
  · refine validity_putMailbox_same hb ?_
    rfl

theorem validity_raiseUIDNextTx :
    (raiseUIDNextTx user mailbox uid db).validity other box = db.validity other box := by
  unfold raiseUIDNextTx
  split
  · rfl
  rename_i b hb
  split
  · refine validity_putMailbox_same hb ?_
    rfl
  · rfl

theorem validity_getNextModSeqTx (h : (db.record user mailbox).isSome) :
    ((getNextModSeqTx user mailbox db).2).validity other box = db.validity other box := by
  obtain ⟨b, hb⟩ := Option.isSome_iff_exists.mp h
  refine validity_putMailbox_same hb ?_
  rw [Database.recordOrNew, hb]
  rfl

theorem validity_replaceModSeqTx {previous : Option MessageMetadata} (modSeq : UInt64)
    (h : (db.record user mailbox).isSome ∨ previous = none) :
    ((replaceModSeqTx user mailbox previous modSeq db).2).validity other box =
      db.validity other box := by
  unfold replaceModSeqTx
  split
  · rfl
  split
  · have hrecord := h.resolve_right (fun he => by cases he)
    rw [validity_getNextModSeqTx (record_isSome_raiseHighestModSeqTx _ hrecord),
      validity_raiseHighestModSeqTx]
  · rfl

theorem validity_storeMessageMetadataTx (metadata : MessageMetadata)
    (h : (db.record user mailbox).isSome ∨ db.row user mailbox uid = none) :
    (storeMessageMetadataTx user mailbox uid metadata db).validity other box =
      db.validity other box := by
  rw [← row_getD] at h
  unfold storeMessageMetadataTx
  rw [validity_putMessages, validity_raiseUIDNextTx, validity_raiseHighestModSeqTx,
    validity_replaceModSeqTx _ h]

theorem floor_storeMessageMetadataTx (metadata : MessageMetadata) :
    (storeMessageMetadataTx user mailbox uid metadata db).floor other box = db.floor other box := by
  have hview : ∀ d : Database, (d.uidView other box).floor = d.floor other box := fun _ => rfl
  unfold storeMessageMetadataTx
  rw [floor_putMessages, ← hview, (raiseUIDNextTx_kept _ user mailbox uid other box).2.2.1,
    uidView_raiseHighestModSeqTx, uidView_replaceModSeqTx, hview]

theorem updateMessageMetadataFuncTx_succession {fn : MessageMetadata → Option MessageMetadata}
    {db' : Database} (h : updateMessageMetadataFuncTx user mailbox uid fn db = .ok (value, db'))
    (hrecord : (db.record user mailbox).isSome ∨ db.row user mailbox uid = none) :
    db'.validity other box = db.validity other box ∧ db'.floor other box = db.floor other box := by
  unfold updateMessageMetadataFuncTx at h
  split at h
  · cases h
    exact ⟨rfl, rfl⟩
  rename_i rows hrows
  split at h
  · cases h
    exact ⟨rfl, rfl⟩
  rename_i metadata hm
  have hsome := hrecord.resolve_right (fun he => by
    rw [Database.row, hrows, Option.bind_some, hm] at he
    cases he)
  split at h
  · cases h
  · cases h
    rw [validity_putMessages, validity_getNextModSeqTx hsome, floor_putMessages]
    exact ⟨rfl, floor_putMailbox _ _ _ _ _ _⟩

-- A UIDVALIDITY from the clock is above the floor, and only the floor can lift
-- it above the clock.
theorem nextUIDValidityTx_source {now : Int} {uv : UInt32}
    (h : nextUIDValidityTx now db (mailboxKey user mailbox) = .ok uv) (hnow : now ≠ 0)
    (hroom : db.floor user mailbox ≠ some maxUint32) :
    uv ≠ 0 ∧ (uv.toNat < 2 ^ 31 ∨ ∃ f, db.floor user mailbox = some f ∧ uv = f + 1) := by
  unfold nextUIDValidityTx at h
  unfold Database.floor at hroom ⊢
  split_ifs at h with hrange
  have hclock : UInt32.ofNat now.toNat ≠ 0 ∧ (UInt32.ofNat now.toNat).toNat < 2 ^ 31 := by
    have htoNat : (UInt32.ofNat now.toNat).toNat = now.toNat := by
      exact Nat.mod_eq_of_lt (by omega)
    refine ⟨fun hzero => ?_, by omega⟩
    rw [hzero] at htoNat
    simp at htoNat
    omega
  cases hd : db.uidValidityFloor with
  | none =>
    rw [hd] at h
    cases h
    exact ⟨hclock.1, .inl hclock.2⟩
  | some floors =>
    simp only [hd, Option.bind_some, Except.ok.injEq] at h hroom ⊢
    subst h
    split_ifs with hge
    · cases hf : floors[mailboxKey user mailbox]? with
      | none =>
        exact absurd (by grind) hclock.1
      | some f =>
        rw [hf] at hroom
        have hmax : f ≠ maxUint32 := fun he => hroom (by rw [he])
        unfold maxUint32 at hmax
        exact ⟨by rw [Option.getD_some]; grind, .inr ⟨f, rfl, rfl⟩⟩
    · exact ⟨hclock.1, .inl hclock.2⟩

-- The calls that make sure of a UIDVALIDITY all write the record this way.
theorem succession_ensured (he : ensureUIDValidityTx step.env.now db (mailboxKey user mailbox)
      (db.recordOrNew user mailbox) = .ok b) (hop : step.op.assigns = some (user, mailbox))
    (huv : r.uidValidity = b.uidValidity)
    (hnow : db.uidValidity user mailbox = none → step.env.now ≠ 0)
    (hroom : ∀ other box, db.floor other box ≠ some maxUint32)
    (hvalidity : (step.apply db).validity other box =
      (db.putMailbox user mailbox r).validity other box)
    (hfloor : (step.apply db).floor other box = db.floor other box) :
    Succession db step other box := by
  rw [validity_putMailbox] at hvalidity
  split_ifs at hvalidity with hsame
  · obtain ⟨rfl, rfl⟩ := hsame
    have hnew : (db.recordOrNew user mailbox).uidValidity = db.uidValidity user mailbox :=
      (uidView_uidValidity db user mailbox).symm
    rcases (ensureUIDValidityTx_ok he).2.2 with hkept | ⟨hnone, uv, huv', hok⟩
    · refine .kept ?_ hfloor
      rw [hvalidity, huv, hkept]
      -- The record was there: a new one would have no UIDVALIDITY to keep.
      cases hrecord : db.record user mailbox with
      | some old => simp [Database.validity, Database.recordOrNew, hrecord]
      | none =>
        obtain ⟨uv, hsome⟩ := ensureUIDValidityTx_isSome he
        rw [hkept, Database.recordOrNew, hrecord] at hsome
        cases hsome
    · rw [hnew] at hnone
      obtain ⟨hne, hsource⟩ := nextUIDValidityTx_source hok (hnow hnone) (hroom user mailbox)
      refine .assigned hop hnone (by rw [hvalidity, huv, huv']) hne ?_ (hsource.imp_right .inl)
        hfloor
      exact fun f hf => nextUIDValidityTx_fresh hok (hroom user mailbox) hf
  · exact .kept hvalidity hfloor

theorem renamed_source {uidValidity : Option UInt32} {v : UInt32}
    (hv : uidValidity = some v) (hne : v ≠ 0) (hroom : db.floor user mailbox ≠ some maxUint32) :
    ∃ uv, renamedUIDValidity db (mailboxKey user mailbox) uidValidity = some uv ∧ uv ≠ 0 ∧
      ((∃ f, db.floor user mailbox = some f ∧ uv = f + 1) ∨ uv = v) := by
  subst hv
  unfold renamedUIDValidity
  unfold Database.floor at hroom ⊢
  rcases hd : db.uidValidityFloor with _ | floors
  · exact ⟨v, rfl, hne, .inr rfl⟩
  rw [hd] at hroom
  simp only [Option.bind_some] at hroom ⊢
  split_ifs with hge
  · cases hf : floors[mailboxKey user mailbox]? with
    | none =>
      exact absurd (by grind) hne
    | some f =>
      rw [hf] at hroom
      have hmax : f ≠ maxUint32 := fun he => hroom (by rw [he])
      unfold maxUint32 at hmax
      exact ⟨f + 1, rfl, by grind, .inl ⟨f, rfl, rfl⟩⟩
  · exact ⟨v, rfl, hne, .inr rfl⟩

theorem renameMailboxTx_succession {oldName newName : Bytes}
    (hop : step.op.assigns = some (user, newName)) (hne : oldName ≠ newName)
    (h : renameMailboxTx step.env.now user oldName newName db = .ok (value, step.apply db))
    (hnow : db.record user oldName = none → step.env.now ≠ 0)
    (hvalid : ∀ other box uv, db.validity other box = some uv → ∃ v, uv = some v ∧ v ≠ 0)
    (hroom : ∀ other box, db.floor other box ≠ some maxUint32) :
    Succession db step other box := by
  have hnone : db.uidValidity user newName = none := by
    simp [Database.uidValidity, (renameMailboxTx_free h).1]
  cases hold : db.record user oldName with
  | none =>
    obtain ⟨uv, hn, hdb⟩ := renameMailboxTx_absent h hold
    have hvalidity : (step.apply db).validity other box =
        (db.putMailbox user newName ⟨some uv, some 1, none⟩).validity other box := by
      rw [hdb, validity_putMessages]
    have hfloor : (step.apply db).floor other box = db.floor other box := by
      rw [hdb, floor_putMessages, floor_putMailbox]
    rw [validity_putMailbox] at hvalidity
    split_ifs at hvalidity with hsame
    · obtain ⟨rfl, rfl⟩ := hsame
      obtain ⟨hnz, hsource⟩ := nextUIDValidityTx_source hn (hnow hold) (hroom user newName)
      exact .assigned hop hnone hvalidity hnz
        (fun f hf => nextUIDValidityTx_fresh hn (hroom user newName) hf)
        (hsource.imp_right .inl) hfloor
    · exact .kept hvalidity hfloor
  | some old =>
    obtain ⟨hr, _, hf⟩ := renameMailboxTx_moves hne h hold other box
    obtain ⟨v, hv, hvne⟩ := hvalid user oldName old.uidValidity (by rw [Database.validity, hold]; rfl)
    by_cases hsource : user = other ∧ oldName = box
    · obtain ⟨rfl, rfl⟩ := hsource
      rw [if_pos ⟨rfl, rfl⟩] at hr hf
      refine .retired (by rw [Database.validity, hr]; rfl) ?_
      rw [hf]
      simp [Database.uidValidity, hold]
    · rw [if_neg hsource] at hr hf
      by_cases hdest : user = other ∧ newName = box
      · obtain ⟨rfl, rfl⟩ := hdest
        rw [if_pos ⟨rfl, rfl⟩] at hr
        obtain ⟨uv, huv, hnz, hfrom⟩ := renamed_source hv hvne (hroom user newName)
        refine .assigned hop hnone (by rw [Database.validity, hr, Option.map_some, huv]) hnz
          (fun f hf' => renamedUIDValidity_fresh (hroom user newName) hf' huv) ?_ hf
        refine .inr (hfrom.imp_right fun he => ⟨user, oldName, ?_⟩)
        rw [Database.validity, hold, Option.map_some, hv, he]
      · rw [if_neg hdest] at hr
        exact .kept (by rw [Database.validity, hr]; rfl) hf

end Transactions

structure Sound (count : Nat) (db : Database) : Prop where
  valid : ∀ user mailbox uv, db.validity user mailbox = some uv →
    ∃ v, uv = some v ∧ v ≠ 0 ∧ v.toNat < 2 ^ 31 + count
  floors : ∀ user mailbox f, db.floor user mailbox = some f → f.toNat < 2 ^ 31 + count

variable {count : Nat} {db : Database} {user mailbox : Bytes}

theorem Sound.room (hs : Sound count db) (hcount : count < 2 ^ 31) (user mailbox : Bytes) :
    db.floor user mailbox ≠ some maxUint32 := by
  intro hmax
  have hlt := hs.floors user mailbox maxUint32 hmax
  have hval : maxUint32.toNat = 2 ^ 32 - 1 := rfl
  omega

theorem succession_of_update {α : Type} {step : Step}
    (tx : Database → Except StorageError (α × Database))
    (happly : step.apply db = (db.update step.env tx).2)
    (hok : step.env.fault = false → ∀ value, tx db = .ok (value, step.apply db) →
      Succession db step user mailbox) : Succession db step user mailbox := by
  rcases update_snd with hsame | ⟨hfault, value, htx⟩
  · rw [← happly] at hsame
    exact .kept (by rw [hsame]) (by rw [hsame])
  · rw [← happly] at htx
    exact hok hfault value htx

theorem succession_of_drop {step : Step} (gone : Prop) [Decidable gone]
    (hrecord : (step.apply db).record user mailbox = if gone then none else db.record user mailbox)
    (hfloor : (step.apply db).floor user mailbox = if gone
      then raiseFloor (db.uidValidity user mailbox) (db.floor user mailbox)
      else db.floor user mailbox) : Succession db step user mailbox := by
  split_ifs at hrecord hfloor
  · exact .retired (by rw [Database.validity, hrecord]; rfl) hfloor
  · exact .kept (by rw [Database.validity, hrecord]; rfl) hfloor

-- The access entries, which are removed after the mailbox, do not matter here.
theorem deleteMailbox_snd (env : Env) (user : Bytes) :
    (db.deleteMailbox env user mailbox).2 = db ∨ ∀ other box,
      (db.deleteMailbox env user mailbox).2.record other box =
        (deleteMailboxTx user mailbox db).record other box ∧
      (db.deleteMailbox env user mailbox).2.floor other box =
        (deleteMailboxTx user mailbox db).floor other box := by
  unfold Database.deleteMailbox
  split_ifs
  · exact .inl rfl
  · exact .inl rfl
  · exact .inr fun _ _ => ⟨rfl, rfl⟩
  · exact .inr fun _ _ => ⟨rfl, rfl⟩

theorem step_succession {step : Step} (hs : Sound count db) (hcount : count < 2 ^ 31)
    (hdated : Dated db step) (user mailbox : Bytes) : Succession db step user mailbox := by
  obtain ⟨op, env⟩ := step
  have hroom := hs.room hcount
  cases op with
  | createMailbox u m =>
    refine succession_of_update _ rfl fun hfault value h => ?_
    obtain ⟨b, he, hdb⟩ := createMailboxTx_ok h
    refine succession_ensured he rfl ?_ (hdated hfault) hroom
      (by rw [hdb, validity_putMessages]) (by rw [hdb]; simp)
    rfl
  | deleteMailbox u m =>
    rcases deleteMailbox_snd env u with hsame | hview
    · have happly : (⟨.deleteMailbox u m, env⟩ : Step).apply db = db := hsame
      exact .kept (by rw [happly]) (by rw [happly])
    obtain ⟨hrecord, hfloor⟩ := hview user mailbox
    refine succession_of_drop (u = user ∧ m = mailbox) (hrecord.trans ?_) (hfloor.trans ?_)
    · simp [deleteMailboxTx]
    · simp only [deleteMailboxTx, floor_dropMailbox, floor_recordUIDValidityFloorTx]
      split_ifs with hsame
      · rw [hsame.1, hsame.2]
        rfl
      · rfl
  | renameMailbox u oldName newName =>
    by_cases hne : oldName = newName
    · have hsame : (⟨.renameMailbox u oldName newName, env⟩ : Step).apply db = db := by
        simp [Step.apply, Op.apply, Database.renameMailbox, hne]
      exact .kept (by rw [hsame]) (by rw [hsame])
    refine succession_of_update (renameMailboxTx env.now u oldName newName) ?_
      fun hfault value h => ?_
    · simp [Step.apply, Op.apply, Database.renameMailbox, hne]
    · refine renameMailboxTx_succession rfl hne h (hdated hfault) ?_ hroom
      intro other box uv huv
      obtain ⟨v, hv, hvne, _⟩ := hs.valid other box uv huv
      exact ⟨v, hv, hvne⟩
  | getNextUID u m =>
    refine succession_of_update _ rfl fun hfault value h => ?_
    obtain ⟨b, he, _, _, hdb⟩ := getNextUIDTx_ok h
    refine succession_ensured he rfl ?_ (hdated hfault) hroom (by rw [hdb]) (by rw [hdb]; simp)
    rfl
  | getNextModSeq u m =>
    refine succession_of_update _ rfl fun hfault value h => ?_
    obtain ⟨b, he, h⟩ := Fallible.ok_of_bind h
    obtain ⟨_, hdb⟩ := Prod.mk.inj (Except.ok.inj h)
    refine succession_ensured he rfl ?_ (hdated hfault) hroom (by rw [← hdb]) (by rw [← hdb]; simp)
    rfl
  | storeMessageMetadata u m uid metadata =>
    rcases metadata with _ | metadata
    · exact .kept rfl rfl
    refine succession_of_update _ rfl fun hfault value h => ?_
    obtain ⟨_, hdb⟩ := Prod.mk.inj (Except.ok.inj h)
    exact .kept (by rw [← hdb, validity_storeMessageMetadataTx _ (hdated hfault)])
      (by rw [← hdb, floor_storeMessageMetadataTx])
  | updateMessageMetadataFunc u m uid fn =>
    refine succession_of_update _ rfl fun hfault value h => ?_
    obtain ⟨hvalidity, hfloor⟩ :=
      updateMessageMetadataFuncTx_succession h (hdated hfault)
    exact .kept hvalidity hfloor
  | deleteMessage u m uid =>
    refine succession_of_update _ rfl fun hfault value h => ?_
    obtain ⟨_, hdb⟩ := Prod.mk.inj (Except.ok.inj h)
    have hview : (deleteMessageTx u m uid db).validity user mailbox = db.validity user mailbox ∧
        (deleteMessageTx u m uid db).floor user mailbox = db.floor user mailbox := by
      unfold deleteMessageTx
      split
      · exact ⟨rfl, rfl⟩
      · exact ⟨validity_putMessages _, by simp⟩
    rw [hdb] at hview
    exact .kept hview.1 hview.2
  | purgeUser u =>
    refine succession_of_update _ rfl fun hfault value h => ?_
    obtain ⟨_, hdb⟩ := Prod.mk.inj (Except.ok.inj h)
    refine succession_of_drop (u = user) ?_ ?_
    · rw [← hdb, record_purgeUserTx]
    · rw [← hdb, floor_purgeUserTx]
      rfl

theorem raiseFloor_source {uidValidity floor : Option UInt32} {f : UInt32}
    (h : raiseFloor uidValidity floor = some f) : uidValidity = some f ∨ floor = some f := by
  rcases uidValidity with _ | v
  · exact .inr (by simpa [raiseFloor] using h)
  rcases floor with _ | g
  · exact .inl (by simpa [raiseFloor] using h)
  simp only [raiseFloor, Option.merge_some_some] at h
  split_ifs at h
  · exact .inr (by rw [h])
  · exact .inl (by rw [h])

-- One call takes at most one step of the count.
theorem Sound.step {step : Step} (hs : Sound count db)
    (hcount : count + (step.recreates db).toNat < 2 ^ 31) (hdated : Dated db step) :
    Sound (count + (step.recreates db).toNat) (step.apply db) := by
  have hsuccession := step_succession hs (by omega) hdated
  constructor
  · intro user mailbox uv huv
    cases hsuccession user mailbox with
    | kept hvalidity _ =>
      obtain ⟨v, hv, hne, hlt⟩ := hs.valid user mailbox uv (hvalidity ▸ huv)
      exact ⟨v, hv, hne, by omega⟩
    | retired hvalidity _ =>
      rw [hvalidity] at huv
      cases huv
    | @assigned v hop hnone hvalidity hne _ hsource _ =>
      rw [hvalidity] at huv
      obtain rfl := Option.some.inj huv
      refine ⟨v, rfl, hne, ?_⟩
      rcases hsource with hclock | ⟨f, hf, rfl⟩ | ⟨other, box, hother⟩
      · omega
      · -- The floor is there, so this is a re-creation.
        have hrecreates : step.recreates db = true := by
          simp [Step.recreates, hop, hf, hnone, uidValidity_eq (step.apply db), hvalidity]
        have hlt := hs.floors user mailbox f hf
        rw [hrecreates] at hcount ⊢
        exact lt_of_le_of_lt (Nat.mod_le _ _) (by simp; omega)
      · obtain ⟨v', hv', _, hlt⟩ := hs.valid other box _ hother
        cases hv'
        omega
  · intro user mailbox f hf
    have hkept : db.floor user mailbox = some f → f.toNat < 2 ^ 31 + (count + (step.recreates db).toNat) :=
      fun h => lt_of_lt_of_le (hs.floors user mailbox f h) (by omega)
    cases hsuccession user mailbox with
    | kept _ hfloor => exact hkept (hfloor ▸ hf)
    | assigned _ _ _ _ _ _ hfloor => exact hkept (hfloor ▸ hf)
    | retired _ hfloor =>
      rw [hfloor] at hf
      rcases raiseFloor_source hf with huv | hfl
      · rw [uidValidity_eq, Option.join_eq_some_iff] at huv
        obtain ⟨v, hv, _, hlt⟩ := hs.valid user mailbox _ huv
        cases hv
        omega
      · exact hkept hfl

def Outgrown (db : Database) (user mailbox : Bytes) (v : UInt32) : Prop :=
  (∃ f, db.floor user mailbox = some f ∧ v ≤ f) ∧
    ∀ later, db.validity user mailbox = some (some later) → v < later

theorem Outgrown.step {step : Step} {v : UInt32} (h : Outgrown db user mailbox v)
    (hs : Sound count db) (hcount : count < 2 ^ 31) (hdated : Dated db step) :
    Outgrown (step.apply db) user mailbox v := by
  obtain ⟨⟨f, hf, hle⟩, hlater⟩ := h
  cases step_succession hs hcount hdated user mailbox with
  | kept hvalidity hfloor =>
    unfold Outgrown
    rw [hvalidity, hfloor]
    exact ⟨⟨f, hf, hle⟩, hlater⟩
  | assigned _ _ hvalidity _ hfresh _ hfloor =>
    refine ⟨⟨f, hfloor.trans hf, hle⟩, fun later hnew => ?_⟩
    rw [hvalidity] at hnew
    cases hnew
    exact UInt32.lt_of_le_of_lt hle (hfresh f hf)
  | retired hvalidity hfloor =>
    obtain ⟨f', hf', hle'⟩ := raiseFloor_ge_floor hf
    refine ⟨⟨f', hfloor.trans hf', UInt32.le_trans hle hle'⟩, fun later hnew => ?_⟩
    rw [hvalidity] at hnew
    cases hnew

theorem held_step {step : Step} {v : UInt32} (h : db.validity user mailbox = some (some v))
    (hs : Sound count db) (hcount : count < 2 ^ 31) (hdated : Dated db step) :
    (step.apply db).validity user mailbox = some (some v) ∨
      Outgrown (step.apply db) user mailbox v := by
  have huv : db.uidValidity user mailbox = some v := by
    rw [uidValidity_eq, h]
    rfl
  cases step_succession hs hcount hdated user mailbox with
  | kept hvalidity _ => exact .inl (hvalidity.trans h)
  | assigned _ hnone _ _ _ _ _ =>
    rw [huv] at hnone
    cases hnone
  | retired hvalidity hfloor =>
    obtain ⟨f, hf, hle⟩ := raiseFloor_ge_uidValidity huv
    refine .inr ⟨⟨f, hfloor.trans hf, hle⟩, fun later hnew => ?_⟩
    rw [hvalidity] at hnew
    cases hnew

section Runs

variable {steps : List Step} {db : Database} {count : Nat} {user mailbox : Bytes} {v : UInt32}

theorem recreations_append (steps steps' : List Step) :
    recreations (steps ++ steps') db = recreations steps db + recreations steps' (run steps db) := by
  induction steps generalizing db with
  | nil => simp [recreations]
  | cons step steps ih =>
    rw [List.cons_append, recreations, recreations, ih, Nat.add_assoc]
    rfl

theorem Sound.run (hs : Sound count db) (hdated : RunAll Step.apply Dated steps db)
    (hcount : count + recreations steps db < 2 ^ 31) :
    Sound (count + recreations steps db) (run steps db) := by
  induction steps generalizing db count with
  | nil => exact hs
  | cons step steps ih =>
    rw [recreations] at hcount ⊢
    rw [← Nat.add_assoc] at hcount ⊢
    exact ih (hs.step (by omega) hdated.1) hdated.2 hcount

theorem Outgrown.run (h : Outgrown db user mailbox v) (hs : Sound count db)
    (hdated : RunAll Step.apply Dated steps db) (hcount : count + recreations steps db < 2 ^ 31) :
    Outgrown (Storage.run steps db) user mailbox v := by
  induction steps generalizing db count with
  | nil => exact h
  | cons step steps ih =>
    rw [recreations, ← Nat.add_assoc] at hcount
    exact ih (h.step hs (by omega) hdated.1) (hs.step (by omega) hdated.1) hdated.2 hcount

theorem held_run (h : db.validity user mailbox = some (some v)) (hs : Sound count db)
    (hdated : RunAll Step.apply Dated steps db) (hcount : count + recreations steps db < 2 ^ 31) :
    (run steps db).validity user mailbox = some (some v) ∨
      Outgrown (run steps db) user mailbox v := by
  induction steps generalizing db count with
  | nil => exact .inl h
  | cons step steps ih =>
    rw [recreations, ← Nat.add_assoc] at hcount
    have hs' := hs.step (by omega) hdated.1
    rcases held_step h hs (by omega) hdated.1 with hheld | hout
    · exact ih hheld hs' hdated.2 hcount
    · exact .inr (hout.run hs' hdated.2 hcount)

theorem sound_empty : Sound 0 .empty := by
  constructor
  · intro user mailbox uv huv
    simp [Database.validity, Database.record, Database.empty] at huv
  · intro user mailbox f hf
    cases hf

theorem record_followAll {box box' : Bytes × Bytes} (hbox : (db.record box.1 box.2).isSome)
    (h : followAll steps db box = some box') :
    ((Storage.run steps db).record box'.1 box'.2).isSome := by
  induction steps generalizing db box with
  | nil =>
    cases h
    exact hbox
  | cons step steps ih =>
    obtain ⟨moved, hmoved, hrest⟩ := Option.bind_eq_some_iff.mp h
    refine ih ?_ hrest
    unfold Step.follow at hmoved
    dsimp only at hmoved
    split_ifs at hmoved with hsome
    cases hmoved
    exact hsome

theorem reported_of_sound (hs : Sound count db) (h : db.reportedUIDValidity user mailbox = some v) :
    db.validity user mailbox = some (some v) ∧ v ≠ 0 := by
  obtain ⟨uv, huv, rfl⟩ := Option.map_eq_some_iff.mp h
  obtain ⟨v, rfl, hne, _⟩ := hs.valid user mailbox uv huv
  exact ⟨huv, hne⟩

end Runs

theorem validityGrows_of_dated (steps : List Step) (hfew : recreations steps .empty < 2 ^ 31)
    (hdated : RunAll Step.apply Dated steps .empty) : ValidityGrows steps where
  never_back := by
    rintro first middle last rest rfl user mailbox old new hold hgone hnew
    simp only [RunAll.append, Sequence.run_append] at hdated hgone hnew
    have hcount : recreations first .empty + recreations middle (run first .empty) +
        recreations last (run middle (run first .empty)) < 2 ^ 31 := by
      simp only [recreations_append, Sequence.run_append] at hfew
      exact lt_of_le_of_lt (Nat.le_add_right _ _) hfew
    obtain ⟨⟨⟨hfirst, hmiddle⟩, hlast⟩, _⟩ := hdated
    have hs₁ := sound_empty.run hfirst (by omega)
    have hs₂ := hs₁.run hmiddle (by omega)
    have hs₃ := hs₂.run hlast (by omega)
    obtain ⟨hheld, _⟩ := reported_of_sound hs₁ hold
    rcases held_run hheld hs₁ hmiddle (by omega) with hstill | hout
    · rw [Database.validity, hgone] at hstill
      cases hstill
    · exact (hout.run hs₂ hlast (by omega)).2 new (reported_of_sound hs₃ hnew).1
  nonzero := by
    rintro before env user mailbox uid db after rest box rfl hissue hfollow
    have hdb : (⟨.getNextUID user mailbox, env⟩ : Step).apply (run before .empty) = db :=
      congrArg Prod.snd hissue
    simp only [RunAll.append, RunAll, hdb] at hdated
    simp only [recreations_append, recreations, hdb] at hfew
    obtain ⟨⟨hbefore, hstep, hafter⟩, _⟩ := hdated
    have hs₁ := sound_empty.run hbefore (by omega)
    have hs₂ := hs₁.step (by omega) hstep
    rw [hdb] at hs₂
    have hs₃ := hs₂.run hafter (by omega)
    obtain ⟨b, _, _, _, hput⟩ := getNextUIDTx_ok (getNextUID_ok hissue)
    have hrecord := record_followAll (by rw [hput]; simp) hfollow
    obtain ⟨r, hr⟩ := Option.isSome_iff_exists.mp hrecord
    have hreported : (run after db).reportedUIDValidity box.1 box.2 = some (r.uidValidity.getD 0) := by
      rw [Database.reportedUIDValidity, Database.validity, hr]
      rfl
    exact ⟨_, hreported, (reported_of_sound hs₃ hreported).2⟩

-- An INBOX is renamed away and comes back with the first message it gets.
def renamedAndBack : List Step :=
  [⟨.getNextUID (bytes "ann") (bytes "INBOX"), ⟨7, false, false⟩⟩,
    ⟨.renameMailbox (bytes "ann") (bytes "INBOX") (bytes "old"), ⟨5, false, false⟩⟩,
    ⟨.getNextUID (bytes "ann") (bytes "INBOX"), ⟨3, false, false⟩⟩]

theorem validityGrows_renamed_and_back :
    recreations renamedAndBack .empty = 1 ∧ RunAll Step.apply Dated renamedAndBack .empty ∧
      (run renamedAndBack .empty).reportedUIDValidity (bytes "ann") (bytes "INBOX") = some 8 ∧
      ValidityGrows renamedAndBack := by
  have hdated : RunAll Step.apply Dated renamedAndBack .empty := by decide
  have hcount : recreations renamedAndBack .empty = 1 := by decide
  exact ⟨hcount, hdated, by decide,
    validityGrows_of_dated renamedAndBack (by rw [hcount]; decide) hdated⟩

end UMail.Storage
