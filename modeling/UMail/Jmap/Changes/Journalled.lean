import UMail.Jmap.Changes.Delta
import UMail.Jmap.MailboxIDs

namespace UMail.Jmap

open UMail.Storage
open Utf8 (validText)

section Model

def mailboxIds (db : Database) (user : Bytes) : Set Bytes :=
  { id | ∃ name ∈ db.listMailboxes user, getMailboxIDFromName name = id }

def Mentions (journal : Journal) (since : UInt64) (type : ChangeType) (id : Bytes) : Prop :=
  ∃ e ∈ journal.entries, since < e.seq ∧ e.type = type ∧ e.id = id

-- The flags or the mailboxes of an Email differ, or a mailbox is there in one
-- of two states only.
def Differs (user : Bytes) (store store' : Store) (id : Bytes) : ChangeType → Prop
  | .email => flagsIn store.db user id ≠ flagsIn store'.db user id
  | .mailbox => ¬ (id ∈ mailboxIds store.db user ↔ id ∈ mailboxIds store'.db user)
  | .thread => False

-- Whatever differs between two states is mentioned.
def Covered (user : Bytes) (store store' : Store) : Prop :=
  ∀ type id, Differs user store store' id type →
    Mentions (store'.changes.journal user) (store.changes.journal user).sequence type id

def ChangesResponse.Lists (response : ChangesResponse) (id : Bytes) : Prop :=
  id ∈ response.created ∨ id ∈ response.updated ∨ id ∈ response.destroyed

-- An object that was last made and last removed in one place is left out of
-- the lists.
def Cancelled (changes : List Change) (id : Bytes) : Prop :=
  lastMailbox changes id .created ≠ none ∧
    lastMailbox changes id .created = lastMailbox changes id .destroyed
  deriving Decidable

def OwnID (name : Bytes) : Prop := getMailboxIDFromName name = name ∧ validText name = name
  deriving Decidable

-- The mailbox that is left when another one goes, or was there when one came.
def HasOther (db : Database) (user mailbox : Bytes) : Prop :=
  ∃ other, other ≠ mailbox ∧ (db.record user other).isSome

-- A call makes and drops only mailboxes it writes under their ids, and not the
-- only one.
def StoreCall.Named (db : Database) (user : Bytes) : StoreCall → Prop
  | .storeMessageMetadata mailbox uid _ | .storeFlags mailbox uid _ =>
    (db.row user mailbox uid).isSome → (db.record user mailbox).isSome
  | .deleteMessage _ _ => True
  | .createMailbox mailbox => (db.record user mailbox).isSome ∨ OwnID mailbox ∧ HasOther db user mailbox ∨
      mailbox = bytes "INBOX" ∧ ∀ name, ¬ (db.record user name).isSome
  | .deleteMailbox mailbox => (db.record user mailbox).isSome → OwnID mailbox ∧ HasOther db user mailbox
  | .renameMailbox oldName newName => OwnID oldName ∧ OwnID newName ∧ ∃ name, (db.record user name).isSome

def StoreStep.Covers (user : Bytes) (store : Store) (step : StoreStep) : Prop :=
  step.Traced user store ∧ step.call.Named store.db user

end Model

section Names

variable {db db' : Database} {user : Bytes} {id : Bytes}

theorem mem_mailboxIds {some : Bytes} (h : (db.record user some).isSome) :
    id ∈ mailboxIds db user ↔ ∃ name, (db.record user name).isSome ∧ getMailboxIDFromName name = id := by
  refine exists_congr fun name => and_congr_left fun _ => ?_
  rw [mem_listMailboxes]
  exact or_iff_left fun hnone => hnone.1 some h

theorem mailboxIds_congr (h : ∀ name, name ∈ db'.listMailboxes user ↔ name ∈ db.listMailboxes user) :
    id ∈ mailboxIds db user ↔ id ∈ mailboxIds db' user :=
  exists_congr fun name => and_congr_left fun _ => (h name).symm

-- Where a mailbox that comes or goes is not the only one, has its name as its id
-- and is written, so is every id that comes or goes.
theorem mailboxes_written {made : List Change}
    (hnames : ∀ name, ¬ ((db'.record user name).isSome ↔ (db.record user name).isSome) →
      (∃ old, (db.record user old).isSome) ∧ (∃ new, (db'.record user new).isSome) ∧
        OwnID name ∧ ∃ c ∈ made, c.type = .mailbox ∧ c.id = name)
    (hdiffers : ¬ (id ∈ mailboxIds db user ↔ id ∈ mailboxIds db' user)) :
    ∃ c ∈ made, c.type = .mailbox ∧ validText c.id = id := by
  by_cases hsame : ∀ name, (db'.record user name).isSome ↔ (db.record user name).isSome
  · refine absurd (mailboxIds_congr (fun name => ?_)) hdiffers
    rw [mem_listMailboxes, mem_listMailboxes]
    simp only [hsame]
  obtain ⟨name, hname⟩ := not_forall.mp hsame
  obtain ⟨⟨old, hold⟩, ⟨new, hnew⟩, -⟩ := hnames name hname
  rw [mem_mailboxIds hold, mem_mailboxIds hnew] at hdiffers
  by_contra hnone
  refine hdiffers (exists_congr fun name => and_congr_left fun hid => ?_)
  by_contra hother
  obtain ⟨-, -, ⟨hplain, hvalid⟩, c, hc, htype, rfl⟩ := hnames name fun h => hother h.symm
  exact hnone ⟨c, hc, htype, by rw [hvalid, ← hid, hplain]⟩

theorem mailboxes_step {store : Store} {step : StoreStep} (h : step.call.Named store.db user)
    (hdiffers : ¬ (id ∈ mailboxIds store.db user ↔ id ∈ mailboxIds (step.apply user store).db user)) :
    ∃ c ∈ step.changes user store, c.type = .mailbox ∧ validText c.id = id := by
  obtain ⟨env, call⟩ := step
  rw [db_apply] at hdiffers
  have hrecord := fun name => isSome_record_apply env.env store.db (call.op user) user name
  cases call with
  | storeMessageMetadata mailbox uid _ | storeFlags mailbox uid _ =>
    refine mailboxes_written (fun name hname => ?_) hdiffers
    rw [hrecord] at hname
    refine absurd ⟨fun hafter => hafter.elim ?_ And.left, fun hold => .inr ⟨hold, not_false⟩⟩ hname
    rintro ⟨_, _, rfl, previous, hrow, _⟩
    exact h (by rw [hrow]; rfl)
  | deleteMessage mailbox uid =>
    refine mailboxes_written (fun name hname => ?_) hdiffers
    rw [hrecord] at hname
    exact absurd ⟨fun hafter => hafter.elim False.elim And.left, fun hold => .inr ⟨hold, not_false⟩⟩ hname
  | createMailbox mailbox =>
    by_cases hfirst : mailbox = bytes "INBOX" ∧ ∀ name, ¬ (store.db.record user name).isSome
    -- The first INBOX was listed before it was there.
    · obtain ⟨rfl, hnone⟩ := hfirst
      refine absurd (mailboxIds_congr (fun name => ?_)) hdiffers
      rw [mem_listMailboxes, mem_listMailboxes]
      simp only [hrecord]
      simp only [StoreCall.op, Op.makes, hnone]
      grind
    refine mailboxes_written (fun name hname => ?_) hdiffers
    rw [hrecord] at hname
    simp only [StoreCall.op, Op.makes, Op.drops, not_false_eq_true, and_true, or_iff_right_iff_imp] at hname
    push Not at hname
    obtain ⟨⟨hok, _, rfl⟩, hnew⟩ := hname
    obtain ⟨hplain, other, _, hother⟩ := (h.resolve_left hnew).resolve_right hfirst
    have hold := Option.not_isSome_iff_eq_none.mp hnew
    refine ⟨⟨other, hother⟩, ⟨other, (hrecord other).mpr (.inr ⟨hother, not_false⟩)⟩, hplain,
      ⟨.mailbox, .created, mailbox, []⟩, ?_, rfl, rfl⟩
    simp [StoreStep.changes, StoreCall.op, Op.changes, hok, hold]
  | deleteMailbox mailbox =>
    refine mailboxes_written (fun name hname => ?_) hdiffers
    rw [hrecord] at hname
    simp only [StoreCall.op, Op.makes, false_or, and_iff_left_iff_imp] at hname
    push Not at hname
    obtain ⟨hold, hok, _, rfl⟩ := hname
    obtain ⟨hplain, other, hne, hother⟩ := h hold
    refine ⟨⟨other, hother⟩, ⟨other, (hrecord other).mpr (.inr ⟨hother, fun hdrop => ?_⟩)⟩, hplain,
      ⟨.mailbox, .destroyed, mailbox, []⟩, ?_, rfl, rfl⟩
    · exact hne hdrop.2.2.symm
    · simp [StoreStep.changes, StoreCall.op, Op.changes, hok, hold]
  | renameMailbox oldName newName =>
    obtain ⟨hplainOld, hplainNew, other, hother⟩ := h
    refine mailboxes_written (fun name hname => ?_) hdiffers
    rw [hrecord] at hname
    have hok : succeeded (store.db.renameMailbox env.env user oldName newName).1 = true ∧
        oldName ≠ newName := by
      by_contra hfails
      exact hname ⟨fun hafter => hafter.elim (fun hmake => absurd ⟨hmake.1, hmake.2.1⟩ hfails) And.left,
        fun hold => .inr ⟨hold, fun hdrop => hfails ⟨hdrop.1, hdrop.2.1⟩⟩⟩
    have hmade : StoreStep.changes user ⟨env, .renameMailbox oldName newName⟩ store =
        [⟨.mailbox, .destroyed, oldName, []⟩, ⟨.mailbox, .created, newName, []⟩] := by
      simp [StoreStep.changes, StoreCall.op, Op.changes, hok]
    refine ⟨⟨other, hother⟩, ⟨newName, (hrecord newName).mpr (.inl ⟨hok.1, hok.2, rfl, rfl⟩)⟩, ?_⟩
    rw [hmade]
    by_cases hnew : newName = name
    · exact ⟨hnew ▸ hplainNew, ⟨.mailbox, .created, newName, []⟩, by simp, rfl, hnew⟩
    by_cases hold : oldName = name
    · exact ⟨hold ▸ hplainOld, ⟨.mailbox, .destroyed, oldName, []⟩, by simp, rfl, hold⟩
    · simp [StoreCall.op, Op.makes, Op.drops, hnew, hold] at hname

end Names

section Runs

variable {user : Bytes} {store : Store} {steps : List StoreStep} {id : Bytes}

abbrev AllCovers (user : Bytes) (steps : List StoreStep) (store : Store) : Prop :=
  Sequence.RunAll (StoreStep.apply user) (StoreStep.Covers user) steps store

theorem allTraced_of_covers (h : AllCovers user steps store) : AllTraced user steps store := by
  induction steps generalizing store with
  | nil => trivial
  | cons step steps ih => exact ⟨h.1.1, ih h.2⟩

-- What differs over a run differs over one of its steps, which writes it.
theorem emails_run (h : AllTraced user steps store) (hhashed : Hashed store.db user)
    (hdiffers : flagsIn store.db user id ≠ flagsIn (runStore user steps store).db user id) :
    ∃ c ∈ written user steps store, c.type = .email ∧ validText c.id = id := by
  induction steps generalizing store with
  | nil => exact absurd rfl hdiffers
  | cons step steps ih =>
    by_cases hstep : flagsIn store.db user id = flagsIn (step.apply user store).db user id
    · rw [hstep] at hdiffers
      obtain ⟨c, hc, hc'⟩ := ih h.2 (hashed_step h.1.2 hhashed) hdiffers
      exact ⟨c, List.mem_append_right _ hc, hc'⟩
    · obtain ⟨hhash, c, hc, rfl⟩ := emails_step h.1.2 hhashed hstep
      obtain ⟨hc, htype⟩ := List.mem_filter.mp hc
      exact ⟨c, List.mem_append_left _ hc, decide_eq_true_eq.mp htype, hhash.2⟩

theorem mailboxes_run (h : AllCovers user steps store)
    (hdiffers : ¬ (id ∈ mailboxIds store.db user ↔ id ∈ mailboxIds (runStore user steps store).db user)) :
    ∃ c ∈ written user steps store, c.type = .mailbox ∧ validText c.id = id := by
  induction steps generalizing store with
  | nil => exact absurd Iff.rfl hdiffers
  | cons step steps ih =>
    by_cases hstep : id ∈ mailboxIds store.db user ↔ id ∈ mailboxIds (step.apply user store).db user
    · rw [hstep] at hdiffers
      obtain ⟨c, hc, hc'⟩ := ih h.2 hdiffers
      exact ⟨c, List.mem_append_right _ hc, hc'⟩
    · obtain ⟨c, hc, hc'⟩ := mailboxes_step h.1.2 hstep
      exact ⟨c, List.mem_append_left _ hc, hc'⟩

theorem Grown.mentions {journal journal' : Journal} {made : List Change} {type : ChangeType}
    (h : Grown journal journal' made) (hmade : ∃ c ∈ made, c.type = type ∧ validText c.id = id) :
    Mentions journal' journal.sequence type id := by
  obtain ⟨new, hentries, hnew, hlater⟩ := h.entries
  obtain ⟨c, hc, htype, hid⟩ := hmade
  have hmem : asRead c ∈ new.map changeOf := by
    rw [hnew]
    exact List.mem_map_of_mem hc
  obtain ⟨e, he, heq⟩ := List.mem_map.mp hmem
  refine ⟨e, ?_, hlater e he, (congrArg Change.type heq).trans htype, (congrArg Change.id heq).trans hid⟩
  rw [hentries]
  exact List.mem_append_right _ he

end Runs

section Lists

variable {id : Bytes} {entries : List ChangeEntry} {response : ChangesResponse}

theorem isSome_listed_iff (h : ∃ c ∈ entries.map changeOf, c.id = id) :
    (foldOf id entries).listed.isSome ↔ ¬ Cancelled (entries.map changeOf) id := by
  obtain ⟨c, hc, hid⟩ := h
  have hlast := lastMailbox_ne_none.mpr ⟨c, hc, hid, rfl⟩
  rw [foldOf_eq, Cancelled]
  generalize lastMailbox (entries.map changeOf) id = last at hlast
  cases hcreated : last .created with
  | none =>
    cases hdestroyed : last .destroyed with
    | none =>
      have hupdated : (last .updated).isSome := by
        rw [Option.isSome_iff_ne_none]
        cases hkind : c.kind <;> rw [hkind] at hlast
        · exact absurd hcreated hlast
        · exact hlast
        · exact absurd hdestroyed hlast
      simp [Fold.listed, Fold.moved, hupdated]
    | some destroyedIn => simp [Fold.listed, Fold.moved]
  | some createdIn =>
    rcases hdestroyed : last .destroyed with _ | destroyedIn
    · simp [Fold.listed, Fold.moved]
    by_cases hsame : createdIn = destroyedIn
    · simp [Fold.listed, Fold.moved, hsame]
    · simp [Fold.listed, Fold.moved, hsame]

theorem lists_iff (hcreated : response.created = listedAs .created (foldEntries entries))
    (hupdated : response.updated = listedAs .updated (foldEntries entries))
    (hdestroyed : response.destroyed = listedAs .destroyed (foldEntries entries)) :
    response.Lists id ↔ (foldOf id entries).listed.isSome := by
  rw [ChangesResponse.Lists, hcreated, hupdated, hdestroyed, mem_listedAs, mem_listedAs, mem_listedAs]
  cases (foldOf id entries).listed with
  | none => simp
  | some kind => cases kind <;> simp

end Lists

section Untraced

variable {flags : List Bytes}

theorem mem_flagsIn {db : Database} {user id mailbox : Bytes} :
    flags ∈ flagsIn db user id mailbox ↔ ∃ row ∈ ((db.messagesOf user mailbox).getD ∅).toList,
      row.2.messageID = id ∧ row.2.flags = flags := by
  simp only [flagsIn, Set.mem_ofPred_eq, Prod.exists, Std.ExtTreeMap.mem_toList_iff_getElem?_eq_some,
    row_getD]

def call (call : StoreCall) : StoreStep := ⟨quietCall, call⟩

def workHistory : List StoreStep :=
  [call (.createMailbox (bytes "INBOX")), call (.createMailbox (bytes "Work")), storeCopy (bytes "Work")]

theorem differs_of_flags {store store' : Store} {user id mailbox : Bytes}
    (hbefore : flags ∈ flagsIn store.db user id mailbox)
    (hafter : flags ∉ flagsIn store'.db user id mailbox) : Differs user store store' id .email :=
  fun heq => hafter (heq ▸ hbefore)

theorem not_covered_of_differs {store store' : Store} {user id : Bytes} {type : ChangeType}
    (hdiffers : Differs user store store' id type)
    (hnone : ∀ e ∈ (store'.changes.journal user).entries,
      (store.changes.journal user).sequence < e.seq → e.type = type → e.id ≠ id) :
    ¬ Covered user store store' := by
  intro h
  obtain ⟨e, he, hlater, htype, hid⟩ := h type id hdiffers
  exact hnone e he hlater htype hid

theorem flagsIn_workHistory : [] ∈ flagsIn (runStore (bytes "u") workHistory .empty).db (bytes "u")
    (bytes "aa") (bytes "Work") := mem_flagsIn.mpr (by decide)

-- The only copy of the Email goes, and another one comes and goes.
def refiled : List StoreStep :=
  [deleteCopy (bytes "Work"), storeCopy (bytes "Old"), deleteCopy (bytes "Old")]

def remade : List StoreStep :=
  [call (.createMailbox (bytes "Temp")), call (.deleteMailbox (bytes "Temp")),
    call (.createMailbox (bytes "Temp"))]

end Untraced

-- An Email moves to another mailbox while one is made.
def moved : List StoreStep :=
  [storeCopy (bytes "INBOX"), deleteCopy (bytes "Work"), call (.createMailbox (bytes "Old"))]

end UMail.Jmap
