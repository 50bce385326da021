import UMail.Library.BinarySearch
import UMail.Storage.Operations

namespace UMail.Imap

open UMail.Storage

structure SelectedMailbox where
  name : Bytes
  existing : Nat
  recent : Nat
  deriving DecidableEq, Repr

structure Session where
  user : Bytes
  selected : Option SelectedMailbox
  inSelectedState : Bool
  snap : List UInt32
  snapOn : Bool
  deriving DecidableEq, Repr

variable (s : Session) (db : Database)

def mailboxUIDs (user mailbox : Bytes) : List UInt32 :=
  db.getMessageUIDs user mailbox

def Session.snapInit (fault : Bool) : Session :=
  match s.selected with
  | none => { s with snap := [], snapOn := false }
  | some mailbox =>
    if fault then { s with snap := [], snapOn := false }
    else
      let uids := mailboxUIDs db s.user mailbox.name
      { s with snap := uids, snapOn := true
               selected := some { mailbox with existing := uids.length } }

def Session.select (name : Bytes) (recent : Nat) (fault : Bool) : Session :=
  { ({ s with selected := some ⟨name, 0, recent⟩ } : Session).snapInit db fault with
    inSelectedState := true }

def Session.deselect : Session :=
  { s with selected := none, inSelectedState := false, snap := [], snapOn := false }

def snapSeq (snap : List UInt32) (uid : UInt32) : Option UInt32 :=
  let i := BinarySearch.search snap.length fun i => decide (snap.getD i 0 ≥ uid)
  if snap[i]? = some uid then some (UInt32.ofNat (i + 1)) else none

inductive Untagged
  | expungeData (seq : Nat)
  | existsData (count : Nat)
  | recentData (count : Nat)
  deriving DecidableEq, Repr

-- One pass over the snapshot: the UIDs that are still there, and the positions
-- of the others. The position of the first one is i.
def splitSnap (live : List UInt32) : Nat → List UInt32 → List UInt32 × List Nat
  | _, [] => ([], [])
  | i, uid :: rest =>
    let (kept, gone) := splitSnap live (i + 1) rest
    if live.contains uid then (uid :: kept, gone) else (kept, i :: gone)

structure Synced where
  snap : List UInt32
  recent : Nat
  responses : List Untagged

def syncWith (live snap : List UInt32) (recent : Nat) : Synced :=
  let (kept, gone) := splitSnap live 0 snap
  let expunges := gone.reverse.map fun i => Untagged.expungeData (i + 1)
  let recent := min recent kept.length
  let added := live.filter fun uid => !kept.contains uid
  let total := kept ++ added
  if added = [] then ⟨total, recent, expunges⟩
  else
    let recent := recent + added.length
    ⟨total, recent, expunges ++ [.existsData total.length, .recentData recent]⟩

def Session.syncSelected (fault : Bool) : List Untagged × Session :=
  match s.selected with
  | none => ([], s)
  | some mailbox =>
    if !s.snapOn || !s.inSelectedState || fault then ([], s)
    else
      let out := syncWith (mailboxUIDs db s.user mailbox.name) s.snap mailbox.recent
      (out.responses, { s with
        snap := out.snap
        selected := some { mailbox with existing := out.snap.length, recent := out.recent } })

-- A client keeps the UID of every position. EXPUNGE removes a position; after
-- EXISTS it asks for the UIDs of the positions it does not know, and the
-- session answers them from its own list.
def clientApply (answers client : List UInt32) : Untagged → List UInt32
  | .expungeData seq => client.eraseIdx (seq - 1)
  | .existsData count => client ++ (answers.drop client.length).take (count - client.length)
  | .recentData _ => client

def clientView (answers client : List UInt32) (responses : List Untagged) : List UInt32 :=
  responses.foldl (clientApply answers) client

structure View where
  db : Database
  session : Session

inductive Event
  | storage (step : Step)
  | select (name : Bytes) (recent : Nat) (fault : Bool)
  | deselect
  | sync (fault : Bool)

def Event.apply (event : Event) (view : View) : View :=
  match event with
  | .storage step => { view with db := step.apply view.db }
  | .select name recent fault =>
    { view with session := view.session.select view.db name recent fault }
  | .deselect => { view with session := view.session.deselect }
  | .sync fault => { view with session := (view.session.syncSelected view.db fault).2 }

end UMail.Imap
