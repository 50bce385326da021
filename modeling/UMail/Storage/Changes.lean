import UMail.Library.Scan
import UMail.Library.Utf8
import UMail.Storage.Keys
import Mathlib.Algebra.Order.Ring.Int
import Mathlib.Tactic.Common

namespace UMail.Storage

open Utf8 (validText)
open Scan (seek)
open Std (ExtTreeMap)

inductive ChangeType
  | mailbox
  | email
  | thread
  deriving DecidableEq, Repr

inductive ChangeKind
  | created
  | updated
  | destroyed
  deriving DecidableEq, Repr

structure ChangeEntry where
  seq : UInt64
  type : ChangeType
  kind : ChangeKind
  id : Bytes
  mailbox : Bytes
  time : Int
  deriving DecidableEq, Repr

def changesRetention : Int := 30 * 24 * 3600 * 1000000000

def changesMaxEntriesPerUser : Nat := 50000

-- The bucket of one user: its sequence and the rows by their number. A row
-- that cannot be read is `none`.
structure Journal where
  sequence : UInt64
  rows : ExtTreeMap UInt64 (Option ChangeEntry)

def Journal.empty : Journal := ⟨0, ∅⟩

abbrev Changes := ExtTreeMap Bytes Journal

def changesBucket (user : Bytes) : Bytes := bytes "changes:" ++ keyUser user

def Changes.journal (changes : Changes) (user : Bytes) : Journal :=
  changes[changesBucket user]?.getD .empty

structure ChangeEnv where
  now : Int
  fault : Bool
  deriving DecidableEq, Repr

structure Change where
  type : ChangeType
  kind : ChangeKind
  id : Bytes
  mailbox : Bytes
  deriving DecidableEq, Repr

-- NextSequence wraps at the end of its range.
def Journal.entryFor (now : Int) (change : Change) (journal : Journal) : ChangeEntry :=
  ⟨journal.sequence + 1, change.type, change.kind, validText change.id, validText change.mailbox, now⟩

def Journal.record (now : Int) (change : Change) (journal : Journal) : Journal :=
  let entry := journal.entryFor now change
  ⟨entry.seq, journal.rows.insert entry.seq (some entry)⟩

def Changes.recordChange (env : ChangeEnv) (changes : Changes) (user : Bytes) (change : Change) :
    Changes :=
  if user = [] ∨ env.fault then changes
  else changes.insert (changesBucket user) ((changes.journal user).record env.now change)

structure Page where
  entries : List ChangeEntry
  hasMore : Bool
  lastSeq : UInt64
  deriving DecidableEq, Repr

def sinceLoop (type : ChangeType) (max : Nat) (page : Page) : List (UInt64 × Option ChangeEntry) → Page
  | [] => page
  | (_, none) :: rows => sinceLoop type max page rows
  | (_, some e) :: rows =>
    if e.type ≠ type then sinceLoop type max page rows
    -- This entry already matches and is beyond the cap.
    else if page.entries.length ≥ max then { page with hasMore := true }
    else sinceLoop type max { page with entries := page.entries ++ [e], lastSeq := e.seq } rows

def pageSize (max : Int) : Nat := if max ≤ 0 then 256 else max.toNat

def Journal.since (journal : Journal) (type : ChangeType) (sinceSeq : UInt64) (max : Int) : Page :=
  sinceLoop type (pageSize max) ⟨[], false, sinceSeq⟩ (seek (sinceSeq + 1) journal.rows)

def Changes.getChangesSince (changes : Changes) (user : Bytes) (type : ChangeType)
    (sinceSeq : UInt64) (max : Int) : Page :=
  if sinceSeq = ~~~0 then ⟨[], false, sinceSeq⟩
  else match changes[changesBucket user]? with
    | none => ⟨[], false, sinceSeq⟩
    | some journal => journal.since type sinceSeq max

def expired (cutoff : Int) : Option ChangeEntry → Bool
  | none => true
  | some e => e.time < cutoff

def Journal.prune (now : Int) (journal : Journal) : Journal :=
  let cutoff := now - changesRetention
  let toDelete := (journal.rows.toList.filter fun row => expired cutoff row.2).map Prod.fst
  let live := journal.rows.toList.countP fun row => !expired cutoff row.2
  let rows := toDelete.foldl (fun rows key => rows.erase key) journal.rows
  if live ≤ changesMaxEntriesPerUser then { journal with rows := rows }
  else
    let oldest := rows.keys.take (live - changesMaxEntriesPerUser)
    { journal with rows := oldest.foldl (fun rows key => rows.erase key) rows }

def Changes.pruneChanges (env : ChangeEnv) (changes : Changes) (user : Bytes) : Changes :=
  if user = [] ∨ env.fault then changes
  else match changes[changesBucket user]? with
    | none => changes
    | some journal => changes.insert (changesBucket user) (journal.prune env.now)

theorem changesBucket_inj {user other : Bytes} :
    changesBucket user = changesBucket other ↔ user = other := by
  unfold changesBucket
  rw [List.append_cancel_left_eq]
  exact keyUser_injective.eq_iff

end UMail.Storage
