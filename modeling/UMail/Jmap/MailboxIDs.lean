import UMail.Imap.Rename
import UMail.Storage.Isolation.Theorems

namespace UMail.Jmap

open UMail.Storage
open UMail.Imap

def getMailboxIDFromName (name : Bytes) : Bytes :=
  if name = bytes "INBOX" then bytes "inbox"
  else if name = bytes "Sent" then bytes "sent"
  else if name = bytes "Drafts" then bytes "drafts"
  else if name = bytes "Trash" then bytes "trash"
  else if name = bytes "Junk" then bytes "junk"
  else if name = bytes "Archive" then bytes "archive"
  else name

def getMailboxNameFromID (id : Bytes) : Bytes :=
  if id = bytes "inbox" then bytes "INBOX"
  else if id = bytes "sent" then bytes "Sent"
  else if id = bytes "drafts" then bytes "Drafts"
  else if id = bytes "trash" then bytes "Trash"
  else if id = bytes "junk" then bytes "Junk"
  else if id = bytes "archive" then bytes "Archive"
  else id

-- Which listings of the mailboxes fail, the calls of the database, and
-- strings.EqualFold.
structure NameEnv where
  listFault : Nat → Bool
  call : Nat → Env
  equalFold : Bytes → Bytes → Bool

section Set

variable (env : NameEnv) (db : Database) (user : Bytes)

def listed (i : Nat) : List Bytes := if env.listFault i then [] else db.listMailboxes user

def mailboxNameTaken (i : Nat) (name : Bytes) : Bool :=
  (listed env db user i).any fun n =>
    n = name || getMailboxIDFromName n = getMailboxIDFromName name || env.equalFold n name

inductive SetError
  | notFound
  | forbidden (description : Bytes)
  | invalidProperties (properties : List Bytes) (description : Bytes)
  | serverFail (error : StorageError)
  deriving DecidableEq, Repr

def nameTaken : SetError :=
  .invalidProperties [bytes "name"] (bytes "A mailbox with this name already exists")

def setReply {α : Type} (done : α) : Except StorageError Unit × Database → Except SetError α × Database
  | (.ok _, db) => (.ok done, db)
  | (.error e, db) => (.error (.serverFail e), db)

-- An entry of the create argument of Mailbox/set is answered by an id and a name.
def createEntry (name : Bytes) : Except SetError (Bytes × Bytes) × Database :=
  if name = [] then
    (.error (.invalidProperties [bytes "name"] (bytes "Mailbox name is required")), db)
  else if mailboxNameTaken env db user 0 name then (.error nameTaken, db)
  else setReply (getMailboxIDFromName name, name) (db.createMailbox (env.call 0) user name)

-- An entry of the update argument, with the new name if it has one.
def updateEntry (id : Bytes) (newName : Option Bytes) : Except SetError Unit × Database :=
  let oldName := getMailboxNameFromID id
  if oldName ∉ listed env db user 0 then (.error .notFound, db)
  else match newName with
    | none => (.ok (), db)
    | some newName =>
      if newName = [] || newName = oldName then (.ok (), db)
      else if oldName = bytes "INBOX" then
        (.error (.forbidden (bytes "The inbox cannot be renamed")), db)
      else if mailboxNameTaken env db user 1 newName then (.error nameTaken, db)
      else setReply () (db.renameMailbox (env.call 0) user oldName newName)

-- IMAP CREATE of a decoded name.
def handleCreate (decoded : Bytes) : RenameReply × Database :=
  match checkNewMailboxName decoded with
  | .error e => (.no e, db)
  | .ok name =>
    if name = bytes "INBOX" then (alreadyExists, db)
    else if env.listFault 0 then (.no StorageError.fault.text, db)
    else if name ∈ db.listMailboxes user then (alreadyExists, db)
    else renameReply (db.createMailbox (env.call 0) user name)

end Set

inductive NameCall
  | imapCreate (decoded : Bytes)
  | imapRename (oldName decoded : Bytes)
  | jmapCreate (name : Bytes)
  | jmapUpdate (id : Bytes) (newName : Option Bytes)
  deriving DecidableEq, Repr

def NameCall.apply (user : Bytes) : NameEnv × NameCall → Database → Database
  | (env, .imapCreate decoded), db => (handleCreate env db user decoded).2
  | (env, .imapRename oldName decoded), db =>
    (handleRename ⟨env.listFault 0, env.call⟩ db user oldName decoded).2
  | (env, .jmapCreate name), db => (createEntry env db user name).2
  | (env, .jmapUpdate id newName), db => (updateEntry env db user id newName).2

-- The name that a call admits, when it makes a mailbox of this name.
def NameCall.Names (name : Bytes) : NameCall → Prop
  | .imapCreate decoded | .imapRename _ decoded => checkNewMailboxName decoded = .ok name
  | .jmapCreate newName => newName = name
  | .jmapUpdate _ newName => newName = some name

def Identified (db : Database) (user : Bytes) : Prop :=
  ((db.listMailboxes user).map getMailboxIDFromName).Nodup ∧
    ∀ name ∈ db.listMailboxes user, getMailboxNameFromID (getMailboxIDFromName name) = name

def soundEnv : NameEnv := ⟨fun _ => false, fun _ => ⟨1, false, false⟩, Storage.equalFold⟩

-- IMAP tells sent from Sent, but both have the id sent.
theorem identified_fails_case :
    ¬ ∀ calls user, Identified (Sequence.run (NameCall.apply user) calls .empty) user := by
  intro h
  have hids := (h [(soundEnv, .imapCreate (bytes "Sent")), (soundEnv, .imapCreate (bytes "sent"))]
    (bytes "ann")).1
  revert hids
  decide +kernel

def reserved : List Bytes :=
  [bytes "inbox", bytes "sent", bytes "drafts", bytes "trash", bytes "junk", bytes "archive"]

-- No mailbox has the id of a role as its name.
def Unreserved (user : Bytes) (db : Database) : Prop :=
  ∀ name, (db.record user name).isSome → name ∉ reserved

theorem getMailboxNameFromID_of_name {name : Bytes} (h : name ∉ reserved) :
    getMailboxNameFromID (getMailboxIDFromName name) = name := by
  have hplain : getMailboxNameFromID name = name := by
    simp only [reserved, List.mem_cons, not_or] at h
    simp [getMailboxNameFromID, h]
  unfold getMailboxIDFromName
  split_ifs with h₁ h₂ h₃ h₄ h₅ h₆
  · exact h₁ ▸ rfl
  · exact h₂ ▸ rfl
  · exact h₃ ▸ rfl
  · exact h₄ ▸ rfl
  · exact h₅ ▸ rfl
  · exact h₆ ▸ rfl
  · exact hplain

namespace Unreserved

variable {db : Database} {user name : Bytes}

theorem identified (h : Unreserved user db) : Identified db user := by
  have hback : ∀ name ∈ db.listMailboxes user,
      getMailboxNameFromID (getMailboxIDFromName name) = name := by
    intro name hname
    refine getMailboxNameFromID_of_name ?_
    rcases mem_listMailboxes.mp hname with hrecord | ⟨_, rfl⟩
    · exact h name hrecord
    · decide
  refine ⟨listMailboxes_nodup.map_on fun name hname other hother hids => ?_, hback⟩
  rw [← hback name hname, hids, hback other hother]

theorem createMailbox (h : Unreserved user db) (hname : name ∉ reserved) (env : Env) :
    Unreserved user (db.createMailbox env user name).2 := by
  intro other hother
  rcases (isSome_record_apply env db (.createMailbox user name) user other).mp hother with
    ⟨_, _, rfl⟩ | ⟨hbefore, _⟩
  · exact hname
  · exact h other hbefore

theorem renameMailbox (h : Unreserved user db) (hname : name ∉ reserved) (env : Env) (oldName : Bytes) :
    Unreserved user (db.renameMailbox env user oldName name).2 := by
  intro other hother
  rcases (isSome_renameMailbox env db user oldName name).mp hother with ⟨_, _, _, rfl⟩ | ⟨hbefore, _⟩
  · exact hname
  · exact h other hbefore

theorem renameAll {moves : List MailboxMove} (h : Unreserved user db)
    (hmoves : ∀ move ∈ moves, move.target ∉ reserved) (env : RenameEnv) (i : Nat) :
    Unreserved user (renameAll env user i moves db).2 := by
  induction moves generalizing i db with
  | nil => exact h
  | cons move moves ih =>
    obtain ⟨hmove, hmoves⟩ := List.forall_mem_cons.mp hmoves
    have hnext := h.renameMailbox hmove (env.call i) move.source
    unfold Imap.renameAll
    split
    · rename_i hdone
      rw [hdone] at hnext
      exact ih hnext hmoves _
    · rename_i hfailed
      rwa [hfailed] at hnext

-- The mailboxes below one that is renamed keep a slash in their names.
theorem renameMoves_target {names : List Bytes} {oldName : Bytes} {move : MailboxMove}
    (hname : name ∉ reserved) (hmove : move ∈ renameMoves names oldName name) : move.target ∉ reserved := by
  have hslash : ∀ id ∈ reserved, slash ∉ id := by decide
  rcases List.mem_cons.mp hmove with rfl | hbelow
  · exact hname
  obtain ⟨below, hinferior, rfl⟩ := List.mem_map.mp hbelow
  obtain ⟨rest, rfl⟩ := List.isPrefixOf_iff_prefix.mp (List.mem_filter.mp hinferior).2
  exact fun hid => hslash _ hid (by simp [moveBelow])

theorem step {call : NameEnv × NameCall} (h : Unreserved user db)
    (hnames : ∀ name, call.2.Names name → name ∉ reserved) :
    Unreserved user (NameCall.apply user call db) := by
  have hset : ∀ {α : Type} (done : α) out, (setReply done out).2 = out.2 := by
    rintro _ _ ⟨_ | _, _⟩ <;> rfl
  have hrename : ∀ out, (renameReply out).2 = out.2 := by
    rintro ⟨_ | _, _⟩ <;> rfl
  obtain ⟨env, call⟩ := call
  cases call with
  | imapCreate decoded =>
    change Unreserved user (handleCreate env db user decoded).2
    unfold handleCreate
    split
    · exact h
    rename_i name hcheck
    split_ifs
    · exact h
    · exact h
    · exact h
    · rw [hrename]
      exact h.createMailbox (hnames name hcheck) _
  | imapRename oldName decoded =>
    change Unreserved user (handleRename _ db user oldName decoded).2
    unfold handleRename
    split
    · exact h
    split
    · exact h
    rename_i name hcheck
    split
    · exact h
    dsimp only
    split
    · exact h
    · rw [hrename]
      exact h.renameAll (fun _ => renameMoves_target (hnames name hcheck)) _ _
  | jmapCreate name =>
    change Unreserved user (createEntry env db user name).2
    unfold createEntry
    split_ifs
    · exact h
    · exact h
    · rw [hset]
      exact h.createMailbox (hnames name rfl) _
  | jmapUpdate id newName =>
    change Unreserved user (updateEntry env db user id newName).2
    unfold updateEntry
    dsimp only
    split
    · exact h
    split
    · exact h
    split_ifs
    · exact h
    · exact h
    · exact h
    · rw [hset]
      exact h.renameMailbox (hnames _ rfl) _ _

end Unreserved

theorem mailboxIDs_identify {calls : List (NameEnv × NameCall)}
    (h : ∀ call ∈ calls, ∀ name, call.2.Names name → name ∉ reserved) (user : Bytes) :
    Identified (Sequence.run (NameCall.apply user) calls .empty) user := by
  refine Unreserved.identified ?_
  induction calls using List.reverseRecOn with
  | nil => exact fun name hname => by cases hname
  | append_singleton calls call ih =>
    rw [Sequence.run_append]
    refine (ih fun c hc => h c (List.mem_append_left _ hc)).step ?_
    exact h call (by simp)

theorem mailboxIDs_identify_plain : Identified (Sequence.run (NameCall.apply (bytes "ann"))
    [(soundEnv, .jmapCreate (bytes "Sent")), (soundEnv, .imapCreate (bytes "Work"))] .empty)
    (bytes "ann") := by
  refine mailboxIDs_identify ?_ _
  simp only [List.forall_mem_cons, NameCall.Names, forall_eq']
  refine ⟨by decide, fun name h => ?_, by simp⟩
  cases h
  decide

end UMail.Jmap
