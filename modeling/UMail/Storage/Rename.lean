import UMail.Library.Relocate
import UMail.Storage.UIDSafety

namespace UMail.Storage

open Std (ExtTreeMap)
open Relocate (Move relocate)

def Database.getACL (db : Database) (owner mailbox grantee : Bytes) : UInt8 :=
  (db.acl[aclKey owner mailbox grantee]?.map ACLEntry.rights).getD 0

-- Whoever had rights to the old mailbox has them to the new one, nobody has any
-- to the old one, and all other rights are what they were.
structure GrantsMoved (db db' : Database) (user oldName newName : Bytes) : Prop where
  arrived : ∀ grantee, db.getACL user oldName grantee ≠ 0 →
    db'.getACL user newName grantee = db.getACL user oldName grantee
  left : ∀ grantee, db'.getACL user oldName grantee = 0
  others : ∀ owner mailbox grantee, ¬ (user = owner ∧ oldName = mailbox) →
    (user = owner ∧ newName = mailbox → db.getACL user oldName grantee = 0) →
      db'.getACL owner mailbox grantee = db.getACL owner mailbox grantee

-- Everything of the old mailbox is at the new one, and nothing else changed.
structure Moved (db db' : Database) (user oldName newName : Bytes) : Prop where
  counters : (db'.record user newName).map (fun b => (b.uidNext, b.highestModSeq)) =
    (db.record user oldName).map fun b => (b.uidNext, b.highestModSeq)
  rows : db'.messagesOf user newName = db.messagesOf user oldName
  left : db'.record user oldName = none ∧ db'.messagesOf user oldName = none
  others : ∀ owner mailbox, ¬ (user = owner ∧ oldName = mailbox) →
    ¬ (user = owner ∧ newName = mailbox) → db'.record owner mailbox = db.record owner mailbox ∧
      db'.messagesOf owner mailbox = db.messagesOf owner mailbox
  grants : GrantsMoved db db' user oldName newName
  uploads : db'.pendingUploads = db.pendingUploads

def RenamesExactly (env : Env) (db : Database) (user oldName newName : Bytes) : Prop :=
  match db.renameMailbox env user oldName newName with
  | (.ok _, db') => Moved db db' user oldName newName
  | (.error _, db') => db' = db

-- A grantee with a colon in its name. Its entry for the mailbox "a" is also that
-- of "c" for "a:b".
def colonGrant : Database :=
  { Database.empty with
    mailboxes := (∅ : ExtTreeMap Bytes MailboxRecord).insert (mailboxKey (bytes "u") (bytes "x"))
      ⟨some 1, some 1, some 0⟩
    acl := (∅ : ExtTreeMap Bytes ACLEntry).insert (aclKey (bytes "u") (bytes "x") (bytes "b:c"))
      ⟨bytes "b:c", 1, 0, []⟩ }

theorem renamesExactly_fails_collision :
    ¬ ∀ (env : Env) (db : Database) (user oldName newName : Bytes),
      (db.record user oldName).isSome → db.record user newName = none →
        RenamesExactly env db user oldName newName := by
  intro h
  have hmoved : Moved colonGrant (colonGrant.renameMailbox ⟨0, false, false⟩ (bytes "u")
      (bytes "x") (bytes "a")).2 (bytes "u") (bytes "x") (bytes "a") :=
    h ⟨0, false, false⟩ colonGrant (bytes "u") (bytes "x") (bytes "a") (by decide) (by decide)
  have hsame := hmoved.grants.others (bytes "u") (bytes "a:b") (bytes "c") (by decide) (by decide)
  revert hsame
  decide

-- Each entry of the old mailbox that gives rights is for the grantee of its key,
-- and neither that nor the old name has a colon. Nor has the new name, or it is
-- no name below the old one and the grantee has the same rights to it. An entry
-- without rights takes none away where it goes.
def Uncontested (db : Database) (user oldName newName : Bytes) : Prop :=
  ∀ grantee entry, db.acl[aclKey user oldName grantee]? = some entry →
    if entry.rights = 0 then entry.grantee = grantee → db.getACL user newName grantee = 0
    else entry.grantee = grantee ∧ colon ∉ oldName ∧ colon ∉ grantee ∧
      (colon ∉ newName ∨ (∀ rest, newName ≠ oldName ++ colon :: rest) ∧
        db.getACL user newName grantee = entry.rights)

section Keys

variable {owner other mailbox mailbox' grantee grantee' : Bytes}

theorem aclKey_eq_iff : aclKey owner mailbox grantee = aclKey other mailbox' grantee' ↔
    owner = other ∧ mailbox ++ colon :: grantee = mailbox' ++ colon :: grantee' := by
  simp only [aclKey, aclOwnerMailboxPrefix, List.append_assoc, List.append_cancel_left_eq,
    List.cons_append, List.nil_append]
  constructor
  · intro h
    obtain ⟨rfl, hrest⟩ := keyUser_append_inj h
    exact ⟨rfl, hrest⟩
  · rintro ⟨rfl, hrest⟩
    rw [hrest]

theorem aclKey_owner (h : aclKey owner mailbox grantee = aclKey other mailbox' grantee') :
    owner = other := (aclKey_eq_iff.mp h).1

theorem aclKey_mailbox (h : aclKey owner mailbox grantee = aclKey other mailbox' grantee) :
    owner = other ∧ mailbox = mailbox' :=
  (aclKey_eq_iff.mp h).imp_right List.append_cancel_right

theorem aclKey_grantee (h : aclKey owner mailbox grantee = aclKey owner mailbox grantee') :
    grantee = grantee' := List.append_cancel_left h

-- Without colons a key is that of one mailbox and one grantee.
theorem aclKey_plain (hmailbox : colon ∉ mailbox') (hgrantee : colon ∉ grantee')
    (h : aclKey owner mailbox grantee = aclKey other mailbox' grantee') :
    owner = other ∧ mailbox = mailbox' ∧ grantee = grantee' :=
  (aclKey_eq_iff.mp h).imp_right (Separator.append_separator_unique hmailbox hgrantee)

theorem below_of_aclKey (hmailbox : colon ∉ mailbox')
    (h : aclKey owner mailbox grantee = aclKey other mailbox' grantee') :
    mailbox = mailbox' ∨ ∃ rest, mailbox = mailbox' ++ colon :: rest := by
  rcases List.append_eq_append_iff.mp (aclKey_eq_iff.mp h).2 with
    ⟨rest, hsplit, hrest⟩ | ⟨rest, hsplit, hrest⟩
  · rcases rest with _ | ⟨c, rest⟩
    · exact .inl (by simpa using hsplit.symm)
    · obtain ⟨rfl, -⟩ := List.cons.inj hrest
      exact absurd (by simp [hsplit]) hmailbox
  · rcases rest with _ | ⟨c, rest⟩
    · exact .inl (by simpa using hsplit)
    · obtain ⟨rfl, -⟩ := List.cons.inj hrest
      exact .inr ⟨rest, hsplit⟩

end Keys

section Grants

variable {db db' : Database} {user oldName newName : Bytes}

variable {entry : ACLEntry} {owner mailbox grantee key : Bytes}

theorem getACL_of_row (h : db.acl[aclKey owner mailbox grantee]? = some entry) :
    db.getACL owner mailbox grantee = entry.rights := by
  rw [Database.getACL, h]
  rfl

theorem getACL_of_none (h : db.acl[aclKey owner mailbox grantee]? = none) :
    db.getACL owner mailbox grantee = 0 := by
  rw [Database.getACL, h]
  rfl

theorem getACL_congr {owner' mailbox' grantee' : Bytes}
    (h : aclKey owner mailbox grantee = aclKey owner' mailbox' grantee') :
    db.getACL owner mailbox grantee = db.getACL owner' mailbox' grantee' := by
  rw [Database.getACL, Database.getACL, h]

theorem exists_row (h : db.getACL owner mailbox grantee ≠ 0) :
    ∃ entry, db.acl[aclKey owner mailbox grantee]? = some entry ∧ entry.rights ≠ 0 := by
  obtain ⟨entry, hrow⟩ := Option.ne_none_iff_exists'.mp fun hnone => h (getACL_of_none hnone)
  exact ⟨entry, hrow, getACL_of_row hrow ▸ h⟩

theorem mem_aclEntries :
    (key, entry) ∈ db.aclEntries owner mailbox ↔
      db.acl[key]? = some entry ∧ key = aclKey owner mailbox entry.grantee := by
  unfold Database.aclEntries aclKeyBelongsTo
  rw [List.mem_filter, ExtTreeMap.mem_toList_iff_getElem?_eq_some]
  constructor
  · rintro ⟨hrow, hkey⟩
    exact ⟨hrow, eq_of_beq (Bool.and_eq_true_iff.mp hkey).2⟩
  · rintro ⟨hrow, rfl⟩
    refine ⟨hrow, Bool.and_eq_true_iff.mpr ⟨?_, beq_self_eq_true _⟩⟩
    exact List.isPrefixOf_iff_prefix.mpr ⟨entry.grantee, rfl⟩

def aclMove (user newName : Bytes) (kv : Bytes × ACLEntry) : Move Bytes ACLEntry :=
  ⟨kv.1, aclKey user newName kv.2.grantee, kv.2⟩

theorem acl_moveACLTx (user : Bytes) : (moveACLTx user oldName newName db).acl =
      relocate compare ((db.aclEntries user oldName).map (aclMove user newName)) db.acl := by
  unfold moveACLTx relocate
  rw [List.foldl_map]
  refine List.foldl_ext _ _ _ ?_
  rintro acl ⟨key, entry⟩ hmem
  obtain ⟨_, rfl⟩ := mem_aclEntries.mp hmem
  have hdrop : (aclKey user oldName entry.grantee).drop (aclOwnerMailboxPrefix user oldName).length =
    entry.grantee := List.drop_left
  simp only [hdrop, aclMove]

-- An entry of the old mailbox that is stored under the name of its grantee.
def Own (db : Database) (user oldName : Bytes) (entry : ACLEntry) : Prop :=
  db.acl[aclKey user oldName entry.grantee]? = some entry

section Moves

variable (hacl : db'.acl = (moveACLTx user oldName newName db).acl)

include hacl

-- One key after the move: it has what it had, or what was moved there, or
-- nothing when its entry has left.
theorem acl_cases (key : Bytes) :
    ((∀ entry, Own db user oldName entry →
      aclKey user oldName entry.grantee ≠ key ∧ aclKey user newName entry.grantee ≠ key) ∧
        db'.acl[key]? = db.acl[key]?) ∨
    (∃ entry, Own db user oldName entry ∧ aclKey user newName entry.grantee = key ∧
      db'.acl[key]? = some entry) ∨
    ∃ entry, Own db user oldName entry ∧ aclKey user oldName entry.grantee = key ∧
      db'.acl[key]? = none := by
  have hmoves : ∀ move, move ∈ (db.aclEntries user oldName).map (aclMove user newName) ↔
      ∃ entry, Own db user oldName entry ∧
        move = ⟨aclKey user oldName entry.grantee, aclKey user newName entry.grantee, entry⟩ := by
    intro move
    rw [List.mem_map]
    constructor
    · rintro ⟨⟨key, entry⟩, hmem, rfl⟩
      obtain ⟨hrow, rfl⟩ := mem_aclEntries.mp hmem
      exact ⟨entry, hrow, rfl⟩
    · rintro ⟨entry, hown, rfl⟩
      exact ⟨(_, entry), mem_aclEntries.mpr ⟨hown, rfl⟩, rfl⟩
  rw [hacl, acl_moveACLTx]
  rcases Relocate.getElem?_relocate_cases ((db.aclEntries user oldName).map (aclMove user newName))
    db.acl key with ⟨hfree, hsame⟩ | ⟨move, hmem, hkey, hrow⟩ | ⟨move, hmem, hkey, hrow⟩
  · exact .inl ⟨fun entry hown => hfree _ ((hmoves _).mpr ⟨entry, hown, rfl⟩), hsame⟩
  · obtain ⟨entry, hown, rfl⟩ := (hmoves _).mp hmem
    exact .inr (.inl ⟨entry, hown, hkey, hrow⟩)
  · obtain ⟨entry, hown, rfl⟩ := (hmoves _).mp hmem
    exact .inr (.inr ⟨entry, hown, hkey, hrow⟩)

theorem acl_untouched (hold : ∀ entry : ACLEntry, aclKey user oldName entry.grantee ≠ key ∧
      aclKey user newName entry.grantee ≠ key) : db'.acl[key]? = db.acl[key]? := by
  rcases acl_cases hacl key with ⟨-, hsame⟩ | ⟨entry, -, hkey, -⟩ | ⟨entry, -, hkey, -⟩
  · exact hsame
  · exact absurd hkey (hold entry).2
  · exact absurd hkey (hold entry).1

variable (hne : oldName ≠ newName)

include hne

theorem Uncontested.grantsMoved (h : Uncontested db user oldName newName) :
    GrantsMoved db db' user oldName newName where
  arrived grantee hgrant := by
    obtain ⟨entry, hrow, hrights⟩ := exists_row hgrant
    have hentry := h grantee entry hrow
    rw [if_neg hrights] at hentry
    obtain ⟨rfl, hold, hgrantee, hnew⟩ := hentry
    rw [getACL_of_row hrow]
    rcases acl_cases hacl (aclKey user newName entry.grantee) with
      ⟨hfree, -⟩ | ⟨other, hown, hkey, hafter⟩ | ⟨other, hown, hkey, -⟩
    · exact absurd rfl (hfree entry hrow).2
    · unfold Own at hown
      rw [aclKey_grantee hkey, hrow] at hown
      cases hown
      exact getACL_of_row hafter
    · -- An entry of the old mailbox has stood where this one goes.
      rcases hnew with hnew | ⟨-, hsame⟩
      · exact absurd (aclKey_plain hnew hgrantee hkey).2.1 hne
      rw [← getACL_congr hkey, getACL_of_row hown] at hsame
      have hother := h other.grantee other hown
      rw [if_neg (hsame ▸ hrights)] at hother
      exact absurd (aclKey_plain hother.2.1 hother.2.2.1 hkey.symm).2.1.symm hne
  left grantee := by
    rcases acl_cases hacl (aclKey user oldName grantee) with
      ⟨hfree, hsame⟩ | ⟨entry, hown, hkey, hafter⟩ | ⟨entry, -, -, hafter⟩
    · by_contra hgrant
      rw [Database.getACL, hsame] at hgrant
      obtain ⟨entry, hrow, hrights⟩ := exists_row hgrant
      have hentry := h grantee entry hrow
      rw [if_neg hrights] at hentry
      obtain ⟨rfl, -⟩ := hentry
      exact (hfree entry hrow).1 rfl
    · rw [getACL_of_row hafter]
      by_contra hrights
      have hentry := h entry.grantee entry hown
      rw [if_neg hrights] at hentry
      obtain ⟨-, hold, hgrantee, hnew⟩ := hentry
      rcases below_of_aclKey hold hkey with he | ⟨rest, rfl⟩
      · exact hne he.symm
      · exact hnew.elim (fun hnew => hnew (by simp)) fun hnew => hnew.1 rest rfl
    · exact getACL_of_none hafter
  others owner mailbox grantee hsource htarget := by
    rcases acl_cases hacl (aclKey owner mailbox grantee) with
      ⟨-, hsame⟩ | ⟨entry, hown, hkey, hafter⟩ | ⟨entry, hown, hkey, hafter⟩
    · rw [Database.getACL, hsame]
      rfl
    · rw [getACL_of_row hafter, ← getACL_congr hkey]
      have hentry := h entry.grantee entry hown
      split_ifs at hentry with hrights
      · rw [hentry rfl, hrights]
      obtain ⟨-, -, hgrantee, hnew | ⟨-, hsame⟩⟩ := hentry
      · obtain ⟨rfl, rfl, rfl⟩ := aclKey_plain hnew hgrantee hkey.symm
        exact absurd (getACL_of_row hown ▸ htarget ⟨rfl, rfl⟩) hrights
      · exact hsame.symm
    · rw [getACL_of_none hafter, ← getACL_congr hkey, getACL_of_row hown]
      have hentry := h entry.grantee entry hown
      split_ifs at hentry with hrights
      · exact hrights.symm
      obtain ⟨rfl, rfl, -⟩ := aclKey_plain hentry.2.1 hentry.2.2.1 hkey.symm
      exact absurd ⟨rfl, rfl⟩ hsource

theorem GrantsMoved.uncontested (h : GrantsMoved db db' user oldName newName) :
    Uncontested db user oldName newName := by
  intro grantee entry hrow
  split_ifs with hrights
  · rintro rfl
    rw [← h.others user newName entry.grantee (fun he => hne he.2)
      fun _ => (getACL_of_row hrow).trans hrights]
    rcases acl_cases hacl (aclKey user newName entry.grantee) with
      ⟨hfree, -⟩ | ⟨other, hown, hkey, hafter⟩ | ⟨other, -, -, hafter⟩
    · exact absurd rfl (hfree entry hrow).2
    · unfold Own at hown
      rw [aclKey_grantee hkey, hrow] at hown
      cases hown
      rw [getACL_of_row hafter, hrights]
    · exact getACL_of_none hafter
  have hgrant : db.getACL user oldName grantee ≠ 0 := getACL_of_row hrow ▸ hrights
  -- The rights that have left are nobody's to another mailbox.
  have hunique : ∀ mailbox other, aclKey user mailbox other = aclKey user oldName grantee →
      mailbox = oldName := by
    intro mailbox other hkey
    by_contra hmailbox
    have hleft := h.left grantee
    rw [← getACL_congr hkey] at hleft
    by_cases hnew : newName = mailbox ∧ db.getACL user oldName other ≠ 0
    · obtain ⟨rfl, hother⟩ := hnew
      exact hother (h.arrived other hother ▸ hleft)
    · rw [h.others user mailbox other (fun he => hmailbox he.2.symm)
        fun he => by_contra fun hother => hnew ⟨he.2, hother⟩, getACL_congr hkey] at hleft
      exact hgrant hleft
  have hbelow : ∀ rest, newName ≠ oldName ++ colon :: rest := by
    rintro rest rfl
    have hkey : aclKey user oldName (rest ++ colon :: grantee) =
      aclKey user (oldName ++ colon :: rest) grantee := aclKey_eq_iff.mpr ⟨rfl, by simp⟩
    have hleft := h.left (rest ++ colon :: grantee)
    rw [getACL_congr hkey, h.arrived grantee hgrant] at hleft
    exact hgrant hleft
  refine ⟨?_, fun hmem => ?_, fun hmem => ?_, or_iff_not_imp_left.mpr fun hmem => ⟨hbelow, ?_⟩⟩
  · rcases acl_cases hacl (aclKey user oldName grantee) with
      ⟨-, hsame⟩ | ⟨other, -, hkey, -⟩ | ⟨other, hown, hkey, -⟩
    · have hleft := h.left grantee
      rw [Database.getACL, hsame] at hleft
      exact absurd hleft hgrant
    · exact absurd (hunique _ _ hkey).symm hne
    · unfold Own at hown
      rw [hkey, hrow] at hown
      cases hown
      exact aclKey_grantee hkey
  · obtain ⟨x, y, rfl⟩ := List.append_of_mem hmem
    simpa using hunique x (y ++ colon :: grantee) (aclKey_eq_iff.mpr ⟨rfl, by simp⟩)
  · obtain ⟨x, y, rfl⟩ := List.append_of_mem hmem
    simpa using hunique (oldName ++ colon :: x) y (aclKey_eq_iff.mpr ⟨rfl, by simp⟩)
  · obtain ⟨x, y, rfl⟩ := List.append_of_mem (not_not.mp hmem)
    have hkey : aclKey user x (y ++ colon :: grantee) = aclKey user (x ++ colon :: y) grantee :=
      aclKey_eq_iff.mpr ⟨rfl, by simp⟩
    rw [← getACL_congr hkey, ← h.others user x _ (fun he => hbelow y (by rw [he.2]))
      (fun he => by simpa using he.2), getACL_congr hkey, h.arrived grantee hgrant, getACL_of_row hrow]

end Moves

end Grants

theorem acl_recordUIDValidityFloorTx {db : Database} {key : Bytes} :
    (recordUIDValidityFloorTx db key).acl = db.acl ∧
      (recordUIDValidityFloorTx db key).pendingUploads = db.pendingUploads := by
  unfold recordUIDValidityFloorTx
  split
  · exact ⟨rfl, rfl⟩
  dsimp only
  split <;> try split_ifs
  all_goals exact ⟨rfl, rfl⟩

variable {user oldName newName : Bytes} {value : Unit} {now : Int}

theorem renameMailboxTx_acl {db db' : Database} {old : MailboxRecord}
    (hold : db.record user oldName = some old)
    (h : renameMailboxTx now user oldName newName db = .ok (value, db')) :
    db'.acl = (moveACLTx user oldName newName db).acl ∧ db'.pendingUploads = db.pendingUploads := by
  have hacl : ∀ d : Database, d.acl = db.acl → (moveACLTx user oldName newName d).acl =
      (moveACLTx user oldName newName db).acl := by
    intro d hd
    unfold moveACLTx Database.aclEntries
    rw [hd]
  unfold renameMailboxTx at h
  split at h
  · cases h
  rw [hold] at h
  cases h
  split <;> exact ⟨hacl _ acl_recordUIDValidityFloorTx.1, acl_recordUIDValidityFloorTx.2⟩

theorem moved_iff_uncontested {db db' : Database}
    (hsource : (db.record user oldName).isSome) (hne : oldName ≠ newName)
    (h : renameMailboxTx now user oldName newName db = .ok (value, db')) :
    Moved db db' user oldName newName ↔ Uncontested db user oldName newName := by
  obtain ⟨old, hold⟩ := Option.isSome_iff_exists.mp hsource
  obtain ⟨hacl, huploads⟩ := renameMailboxTx_acl hold h
  have hmoves := renameMailboxTx_moves hne h hold
  refine ⟨fun hmoved => hmoved.grants.uncontested hacl hne, fun hclear => ?_⟩
  have hto := hmoves user newName
  have hfrom := hmoves user oldName
  simp only [hne, and_self, if_true] at hto hfrom
  exact {
    counters := by rw [hto.1, hold]; rfl
    rows := hto.2.1
    left := ⟨hfrom.1, hfrom.2.1⟩
    others := fun owner mailbox hs ht => by
      have hview := hmoves owner mailbox
      rw [if_neg hs, if_neg ht, if_neg hs, if_neg ht] at hview
      exact ⟨hview.1, hview.2.1⟩
    grants := hclear.grantsMoved hacl hne
    uploads := huploads }

theorem renamesExactly_iff_uncontested (env : Env) (db : Database) (user oldName newName : Bytes)
    (hsource : (db.record user oldName).isSome) (hdest : db.record user newName = none) :
    RenamesExactly env db user oldName newName ↔
      env.fault = true ∨ (db.messagesOf user newName).isSome ∨
        Uncontested db user oldName newName := by
  have hne : oldName ≠ newName := by
    rintro rfl
    rw [hdest] at hsource
    cases hsource
  unfold RenamesExactly Database.renameMailbox Database.update
  rw [if_neg hne]
  by_cases hfault : env.fault = true
  · simp [hfault]
  rw [if_neg hfault]
  by_cases hrows : (db.messagesOf user newName).isSome
  · -- The destination has a bucket of messages: the rename is refused.
    have hrefused : renameMailboxTx env.now user oldName newName db =
        .error (.destinationExists newName) := by
      simp [renameMailboxTx, hrows]
    simp [hrefused, hrows]
  · obtain ⟨old, hold⟩ := Option.isSome_iff_exists.mp hsource
    obtain ⟨db', hdone⟩ : ∃ db', renameMailboxTx env.now user oldName newName db = .ok ((), db') := by
      simp [renameMailboxTx, hdest, hrows, hold]
    rw [hdone]
    simp only [hfault, hrows, false_or, Bool.false_eq_true]
    exact moved_iff_uncontested hsource hne hdone

-- The grantee of the moved mailbox has no colon, and neither has the new name.
def plainGrants : Database :=
  { colonGrant with
    acl := (∅ : ExtTreeMap Bytes ACLEntry).insert (aclKey (bytes "u") (bytes "x") (bytes "c"))
      ⟨bytes "c", 1, 0, []⟩ }

theorem renamesExactly_plain_grants :
    RenamesExactly ⟨0, false, false⟩ plainGrants (bytes "u") (bytes "x") (bytes "a") := by
  refine (renamesExactly_iff_uncontested ⟨0, false, false⟩ plainGrants (bytes "u") (bytes "x")
    (bytes "a") (by decide) (by decide)).mpr (.inr (.inr fun grantee entry hrow => ?_))
  simp only [plainGrants, ExtTreeMap.getElem?_insert] at hrow
  split at hrow
  · rename_i heq
    obtain rfl := aclKey_grantee (Std.compare_eq_iff_eq.mp heq)
    cases hrow
    exact ⟨rfl, by decide, by decide, .inl (by decide)⟩
  · cases hrow

end UMail.Storage
