import UMail.Jmap.Changes.Journalled
import UMail.Library.Base64

namespace UMail.Jmap

open UMail.Storage
open Std (ExtTreeMap)

section Model

structure ListedMessage where
  id : Bytes
  mailbox : Bytes
  uid : UInt32
  metadata : MessageMetadata

def extraCopyID (hash mailbox : Bytes) (uid : UInt32) : Bytes :=
  hash ++ bytes "_" ++ Imap.formatUint uid ++ bytes "_" ++ Base64.encodeToString Base64.rawURL mailbox

-- The copies of the Emails by their ids, and the mailboxes each Email is in.
structure Gathered where
  boxesOf : ExtTreeMap Bytes (List Bytes)
  messages : List ListedMessage

def Gathered.list (g : Gathered) (message : ListedMessage) : Gathered where
  boxesOf := g.boxesOf.insert message.id [message.mailbox]
  messages := g.messages ++ [message]

-- A second copy in one mailbox is an Email of its own.
def Gathered.add (g : Gathered) (mailbox : Bytes) (uid : UInt32) (metadata : MessageMetadata) : Gathered :=
  match g.boxesOf[metadata.messageID]? with
  | none => g.list ⟨metadata.messageID, mailbox, uid, metadata⟩
  | some boxes =>
      if mailbox ∈ boxes then g.list ⟨extraCopyID metadata.messageID mailbox uid, mailbox, uid, metadata⟩
      else { g with boxesOf := g.boxesOf.insert metadata.messageID (mailbox :: boxes) }

def gather (user : Bytes) (db : Database) : Gathered :=
  (db.listMailboxes user).foldl (fun g mailbox => (db.getMessageUIDs user mailbox).foldl
    (fun g uid => g.add mailbox uid (db.getMessageMetadata user mailbox uid)) g) ⟨∅, []⟩

inductive QueryError
  | accountNotFound
  | refused (type description : Bytes)
  | stateMismatch
  deriving DecidableEq

-- A filter and comparators, by what they are found to be: wrong, or a condition
-- on an Email and its mailboxes and a stable sort. The hash is that of their text.
structure EmailQuery where
  hash : Bytes
  invalid : Option QueryError
  filter : MessageMetadata → List Bytes → Bool
  sort : List ListedMessage → List ListedMessage

def runEmailQuery (user : Bytes) (q : EmailQuery) (db : Database) : Except QueryError (List Bytes) :=
  match q.invalid with
  | some e => .error e
  | none =>
      let all := gather user db
      let kept := all.messages.filter fun m => q.filter m.metadata ((all.boxesOf[m.id]?).getD [])
      .ok ((q.sort kept).map ListedMessage.id)

structure QuerySnapshot where
  seq : UInt64
  ids : List Bytes

structure QueryServer where
  store : Store
  snapshots : ExtTreeMap Bytes QuerySnapshot

-- The whole result, as it is without a position, an anchor or a limit.
structure QueryResponse where
  queryState : Bytes
  ids : List Bytes
  deriving DecidableEq

def stateToken (server : QueryServer) (user : Bytes) : Bytes := currentChangeState server.store.changes user

-- An error of SaveQuerySnapshot is passed over.
def handleEmailQuery (user accountId : Bytes) (q : EmailQuery) (saved : Bool) (server : QueryServer) :
    Except QueryError QueryResponse × QueryServer :=
  if accountId ≠ [] ∧ accountId ≠ user then (.error .accountNotFound, server)
  else match runEmailQuery user q server.store.db with
    | .error e => (.error e, server)
    | .ok ids =>
        let queryState := stateToken server user
        let snapshots := server.snapshots.insert q.hash ⟨parseChangeState queryState, ids⟩
        (.ok ⟨queryState, ids⟩, if saved then { server with snapshots := snapshots } else server)

structure QueryChangesResponse where
  accountId : Bytes
  oldQueryState : Bytes
  newQueryState : Bytes
  hasMoreChanges : Bool
  added : List (Bytes × Nat)
  removed : List Nat
  total : Nat
  deriving DecidableEq

def removedFrom (old new : List Bytes) : List Nat :=
  (old.zipIdx.filter fun entry => entry.1 ∉ new).map Prod.snd

def addedTo (old new : List Bytes) : List (Bytes × Nat) := new.zipIdx.filter fun entry => entry.1 ∉ old

def handleEmailQueryChanges (user accountId : Bytes) (q : EmailQuery) (sinceQueryState : Bytes)
    (server : QueryServer) : Except QueryError QueryChangesResponse :=
  if accountId ≠ [] ∧ accountId ≠ user then .error .accountNotFound
  else match server.snapshots[q.hash]? with
    | none => .error .stateMismatch
    | some snap =>
        if sinceQueryState = [] ∨ parseChangeState sinceQueryState ≠ snap.seq then .error .stateMismatch
        else (runEmailQuery user q server.store.db).map fun newIDs =>
          ⟨accountId, sinceQueryState, stateToken server user, false, addedTo snap.ids newIDs,
            removedFrom snap.ids newIDs, newIDs.length⟩

-- What happens to the account after a client has its list: changes by any
-- protocol, and queries of other clients.
inductive QueryStep
  | change (step : StoreStep)
  | query (accountId : Bytes) (q : EmailQuery) (saved : Bool)

def QueryStep.apply (user : Bytes) : QueryStep → QueryServer → QueryServer
  | .change step, server => { server with store := step.apply user server.store }
  | .query accountId q saved, server => (handleEmailQuery user accountId q saved server).2

abbrev runQuerySteps (user : Bytes) (steps : List QueryStep) (server : QueryServer) : QueryServer :=
  Sequence.run (QueryStep.apply user) steps server

end Model

section Splice

-- The entries of a list that are not in the places reported as removed.
def withoutRemoved (held : List Bytes) (removed : List Nat) : List Bytes :=
  (held.zipIdx.filter fun entry => entry.2 ∉ removed).map Prod.fst

def insertAdded (held : List Bytes) (added : List (Bytes × Nat)) : List Bytes :=
  added.foldl (fun ids entry => ids.insertIdx entry.2 entry.1) held

def QueryChangesResponse.splice (response : QueryChangesResponse) (held : List Bytes) : List Bytes :=
  insertAdded (withoutRemoved held response.removed) response.added

-- In the places of the snapshot's ids that are still in the result, the list
-- has these ids in the order of the result.
def Aligned (held old new : List Bytes) : Prop :=
  withoutRemoved held (removedFrom old new) = new.filter (· ∈ old)

def succPlace (entry : Bytes × Nat) : Bytes × Nat := (entry.1, entry.2 + 1)

theorem insertAdded_succ (first : Bytes) (held : List Bytes) (added : List (Bytes × Nat)) :
    insertAdded (first :: held) (added.map succPlace) = first :: insertAdded held added ∧
      insertAdded [] (added.map succPlace) = [] := by
  induction added generalizing held with
  | nil => exact ⟨rfl, rfl⟩
  | cons entry added ih => exact ⟨(ih (held.insertIdx entry.2 entry.1)).1, (ih held).2⟩

theorem addedTo_cons (old : List Bytes) (id : Bytes) (new : List Bytes) :
    addedTo old (id :: new) =
      if id ∈ old then (addedTo old new).map succPlace else (id, 0) :: (addedTo old new).map succPlace := by
  have hrest : (new.zipIdx 1).filter (fun entry => decide (entry.1 ∉ old)) =
      (addedTo old new).map succPlace := by
    rw [List.zipIdx_succ, List.filter_map]
    rfl
  rw [addedTo, List.zipIdx_cons, List.filter_cons, hrest]
  by_cases hold : id ∈ old <;> simp

-- The insertions give the new list to those lists alone that have what it has
-- in common with the old one.
theorem insertAdded_addedTo (held old new : List Bytes) :
    insertAdded held (addedTo old new) = new ↔ held = new.filter (· ∈ old) := by
  induction new generalizing held with
  | nil => exact Iff.rfl
  | cons id new ih =>
    rw [addedTo_cons, List.filter_cons]
    by_cases hold : id ∈ old
    · rw [if_pos hold, if_pos (decide_eq_true hold)]
      cases held with
      | nil =>
        rw [(insertAdded_succ id [] _).2]
        exact iff_of_false (List.cons_ne_nil _ _).symm (List.cons_ne_nil _ _).symm
      | cons first held =>
        rw [(insertAdded_succ first held _).1, List.cons.injEq, List.cons.injEq, ih]
    · rw [if_neg hold, if_neg (by simpa using hold), ← ih]
      change insertAdded (id :: held) _ = _ ↔ _
      rw [(insertAdded_succ id held _).1, List.cons.injEq]
      exact and_iff_right rfl

theorem mem_removedFrom {old new : List Bytes} {entry : Bytes × Nat} (hentry : entry ∈ old.zipIdx) :
    entry.2 ∈ removedFrom old new ↔ entry.1 ∉ new := by
  have hid := List.mk_mem_zipIdx_iff_getElem?.mp hentry
  simp only [removedFrom, List.mem_map, List.mem_filter, decide_eq_true_eq]
  constructor
  · rintro ⟨other, ⟨hother, hgone⟩, hplace⟩
    rw [← hplace, List.mk_mem_zipIdx_iff_getElem?.mp hother] at hid
    rwa [← Option.some.inj hid]
  · exact fun hgone => ⟨entry, ⟨hentry, hgone⟩, rfl⟩

-- A client that holds the snapshot needs the common ids to be in the same order.
theorem aligned_self (old new : List Bytes) :
    Aligned old old new ↔ old.filter (· ∈ new) = new.filter (· ∈ old) := by
  have hkept : old.zipIdx.filter (fun entry => entry.2 ∉ removedFrom old new) =
      old.zipIdx.filter ((· ∈ new) ∘ Prod.fst) :=
    List.filter_congr fun entry hentry => by simp [mem_removedFrom hentry]
  rw [Aligned, withoutRemoved, hkept, ← List.filter_map, List.zipIdx_map_fst]

end Splice

section Divergence

-- No filter and no comparators, and the filter for messages that are not seen.
def allEmails : EmailQuery := ⟨bytes "all", none, fun _ _ => true, id⟩

def unseenEmails : EmailQuery :=
  ⟨bytes "unseen", none, fun metadata _ => !hasFlag metadata.flags (bytes "\\Seen"), id⟩

def stored (mailbox : Bytes) (uid : UInt32) (id : Bytes) : StoreStep :=
  call (.storeMessageMetadata mailbox uid { MessageMetadata.empty with messageID := id })

def twoMails : QueryServer :=
  ⟨runStore (bytes "u") [call (.createMailbox (bytes "INBOX")), call (.createMailbox (bytes "Work")),
    stored (bytes "INBOX") 1 (bytes "aa"), stored (bytes "INBOX") 2 (bytes "bb")] .empty, ∅⟩

-- The first message is moved to another mailbox.
def moveFirst : List QueryStep :=
  [.change (stored (bytes "Work") 1 (bytes "aa")), .change (call (.deleteMessage (bytes "INBOX") 1))]

-- A message is seen, which makes no new state, and another client asks.
def seeFirst : List QueryStep :=
  [.change (call (.storeFlags (bytes "INBOX") 1 fun flags => some (flags ++ [bytes "\\Seen"]))),
    .query [] unseenEmails true]

variable (q : EmailQuery) (steps : List QueryStep)

def afterQuery : QueryServer :=
  runQuerySteps (bytes "u") steps (handleEmailQuery (bytes "u") [] q true twoMails).2

-- The two ids are held, and what is answered for their state does not make the new list of them.
def Misled (response : QueryChangesResponse) (new : List Bytes) : Prop :=
  (handleEmailQuery (bytes "u") [] q true twoMails).1 = .ok ⟨bytes "4", [bytes "aa", bytes "bb"]⟩ ∧
    handleEmailQueryChanges (bytes "u") [] q (bytes "4") (afterQuery q steps) = .ok response ∧
    runEmailQuery (bytes "u") q (afterQuery q steps).store.db = .ok new ∧
    response.splice [bytes "aa", bytes "bb"] ≠ new

instance (response : QueryChangesResponse) (new : List Bytes) :
    Decidable (Misled q steps response new) :=
  inferInstanceAs (Decidable (_ ∧ _ ∧ _ ∧ _))

theorem queryChanges_splice_fails :
    Misled allEmails moveFirst ⟨[], bytes "4", bytes "6", false, [], [], 2⟩ [bytes "bb", bytes "aa"] ∧
      Misled unseenEmails seeFirst ⟨[], bytes "4", bytes "4", false, [], [], 1⟩ [bytes "bb"] := by
  decide

end Divergence

section Kept

-- The step does not put another snapshot in the place of the query's own.
def QueryStep.Keeps (hash : Bytes) : QueryStep → Prop
  | .change _ => True
  | .query _ q saved => saved = true → q.hash ≠ hash

variable {user hash : Bytes} {server : QueryServer}

theorem snapshot_step {step : QueryStep} (h : step.Keeps hash) :
    (step.apply user server).snapshots[hash]? = server.snapshots[hash]? := by
  cases step with
  | change step => rfl
  | query accountId q saved =>
    dsimp only [QueryStep.apply, handleEmailQuery]
    by_cases haccount : accountId ≠ [] ∧ accountId ≠ user
    · rw [if_pos haccount]
    rw [if_neg haccount]
    cases runEmailQuery user q server.store.db with
    | error e => rfl
    | ok ids =>
      cases saved with
      | false => rfl
      | true => exact (Std.ExtTreeMap.getElem?_insert ..).trans (if_neg (by simpa using h rfl))

theorem snapshot_run {steps : List QueryStep} (h : ∀ step ∈ steps, step.Keeps hash) :
    (runQuerySteps user steps server).snapshots[hash]? = server.snapshots[hash]? := by
  induction steps generalizing server with
  | nil => rfl
  | cons step steps ih =>
    exact (ih fun other hother => h other (List.mem_cons_of_mem _ hother)).trans
      (snapshot_step (h step List.mem_cons_self))

theorem snapshot_saved {accountId : Bytes} {q : EmailQuery} {result : QueryResponse}
    (h : (handleEmailQuery user accountId q true server).1 = .ok result) :
    (((handleEmailQuery user accountId q true server).2.snapshots[q.hash]?).map QuerySnapshot.ids) =
      some result.ids := by
  unfold handleEmailQuery at h ⊢
  by_cases haccount : accountId ≠ [] ∧ accountId ≠ user
  · rw [if_pos haccount] at h
    cases h
  rw [if_neg haccount] at h ⊢
  cases hids : runEmailQuery user q server.store.db with
  | error e =>
    rw [hids] at h
    cases h
  | ok ids =>
    rw [hids] at h
    cases h
    simp

end Kept

-- The changes turn the list a client holds into the new result exactly when the
-- list is aligned with the snapshot that is there now. Where that is still the
-- client's own, the common ids have to be in the same order.
theorem queryChanges_splice_iff (user accountId accountId' : Bytes) (q : EmailQuery) (saved : Bool)
    (server : QueryServer) (steps : List QueryStep) :
    let held := handleEmailQuery user accountId q saved server
    let later := runQuerySteps user steps held.2
    ∀ result, held.1 = .ok result → ∀ response,
      handleEmailQueryChanges user accountId' q result.queryState later = .ok response →
      ∃ snap new, later.snapshots[q.hash]? = some snap ∧
        runEmailQuery user q later.store.db = .ok new ∧
        (response.splice result.ids = new ↔ Aligned result.ids snap.ids new) ∧
        (snap.ids = result.ids → (response.splice result.ids = new ↔
          result.ids.filter (· ∈ new) = new.filter (· ∈ result.ids))) ∧
        (saved = true → (∀ step ∈ steps, step.Keeps q.hash) → (response.splice result.ids = new ↔
          result.ids.filter (· ∈ new) = new.filter (· ∈ result.ids))) := by
  intro held later result hresult response hresponse
  unfold handleEmailQueryChanges at hresponse
  split_ifs at hresponse
  rcases hsnap : later.snapshots[q.hash]? with _ | snap
  · simp [hsnap] at hresponse
  simp only [hsnap] at hresponse
  split_ifs at hresponse
  obtain ⟨new, hnew, rfl⟩ := Fallible.ok_of_map hresponse
  have hiff := insertAdded_addedTo (withoutRemoved result.ids (removedFrom snap.ids new)) snap.ids new
  have horder (hheld : snap.ids = result.ids) : Aligned result.ids snap.ids new ↔
      result.ids.filter (· ∈ new) = new.filter (· ∈ result.ids) := by
    rw [hheld]
    exact aligned_self result.ids new
  refine ⟨snap, new, rfl, hnew, hiff, fun hheld => hiff.trans (horder hheld), ?_⟩
  rintro rfl hkeeps
  have hown := snapshot_saved hresult
  rw [← snapshot_run hkeeps, hsnap] at hown
  exact hiff.trans (horder (Option.some.inj hown))

-- A message comes, one goes, and another client asks another query.
def cameAndWent : List QueryStep :=
  [.change (stored (bytes "Work") 1 (bytes "cc")), .query [] unseenEmails true,
    .change (call (.deleteMessage (bytes "INBOX") 1))]

theorem queryChanges_splice_delivered : ∃ response,
    handleEmailQueryChanges (bytes "u") [] allEmails (bytes "4") (afterQuery allEmails cameAndWent) =
      .ok response ∧
    runEmailQuery (bytes "u") allEmails (afterQuery allEmails cameAndWent).store.db =
      .ok (response.splice [bytes "aa", bytes "bb"]) := by
  refine ⟨⟨[], bytes "4", bytes "6", false, [(bytes "cc", 1)], [0], 2⟩, by decide, ?_⟩
  obtain ⟨snap, new, _, hnew, _, _, horder⟩ := queryChanges_splice_iff (bytes "u") [] [] allEmails true
    twoMails cameAndWent ⟨bytes "4", [bytes "aa", bytes "bb"]⟩ (by decide)
    ⟨[], bytes "4", bytes "6", false, [(bytes "cc", 1)], [0], 2⟩ (by decide)
  have hkeeps : ∀ step ∈ cameAndWent, step.Keeps allEmails.hash := by
    have hother : unseenEmails.hash ≠ allEmails.hash := by decide
    simp [cameAndWent, QueryStep.Keeps, hother]
  have hlist : runEmailQuery (bytes "u") allEmails (afterQuery allEmails cameAndWent).store.db =
      .ok [bytes "bb", bytes "cc"] := by decide
  obtain rfl : [bytes "bb", bytes "cc"] = new := Except.ok.inj (hlist.symm.trans hnew)
  rw [(horder rfl hkeeps).mpr (by decide)]
  exact hlist

end UMail.Jmap
