import UMail.Storage.Keys
import Mathlib.Algebra.Order.Ring.Int
import Mathlib.Tactic.Common

namespace UMail.Db

open UMail.Storage

structure EntryID where
  base : Nat
  index : Nat
  deriving DecidableEq, Repr

instance : Ord EntryID := ⟨compareLex (compareOn EntryID.base) (compareOn EntryID.index)⟩

instance : Std.TransOrd EntryID :=
  inferInstanceAs (Std.TransCmp (compareLex (compareOn EntryID.base) (compareOn EntryID.index)))

instance : Std.LawfulEqOrd EntryID where
  eq_of_compare {a b} h := by
    have hlex : compare a.base b.base = .eq ∧ compare a.index b.index = .eq := compareLex_eq_eq.mp h
    cases a
    cases b
    rw [EntryID.mk.injEq]
    exact hlex.imp Nat.compare_eq_eq.mp Nat.compare_eq_eq.mp

inductive EntryStatus
  | pending
  | sending
  | failed
  | delivered
  | bounced
  deriving DecidableEq, Repr

structure QueueEntry where
  fromAddr : Bytes
  toAddr : Bytes
  createdAt : Int
  nextRetry : Int
  retryCount : Nat
  lastError : Bytes
  claimedAt : Option Int
  status : EntryStatus
  notify : Nat
  ret : Nat
  envID : Bytes
  orcpt : Bytes
  deriving DecidableEq, Repr

def QueueEntry.final (entry : QueueEntry) : Bool :=
  entry.status = .delivered || entry.status = .bounced

inductive QueueError
  | fault
  | full
  | notFound
  | notClaimable
  | noRecipients
  | spool
  deriving DecidableEq, Repr

abbrev QueueRows := Std.ExtTreeMap EntryID QueueEntry

section Transactions

variable (fault : Bool) (rows : QueueRows)

def enqueueWithLimit (id : EntryID) (entry : QueueEntry) (maxSize : Nat) :
    Except QueueError Unit × QueueRows :=
  if fault then (.error .fault, rows)
  else if rows.size ≥ maxSize then (.error .full, rows)
  else (.ok (), rows.insert id entry)

def getQueueEntry (id : EntryID) : Except QueueError QueueEntry :=
  if fault then .error .fault
  else match rows[id]? with
    | none => .error .notFound
    | some entry => .ok entry

-- An entry that is gone is not created again.
def updateQueueEntry (id : EntryID) (entry : QueueEntry) : Except QueueError Unit × QueueRows :=
  if fault then (.error .fault, rows)
  else match rows[id]? with
    | none => (.error .notFound, rows)
    | some _ => (.ok (), rows.insert id entry)

def claimQueueEntry (now : Int) (id : EntryID) : Except QueueError QueueEntry × QueueRows :=
  if fault then (.error .fault, rows)
  else match rows[id]? with
    | none => (.error .notFound, rows)
    | some entry =>
      if entry.status ≠ .pending ∨ entry.nextRetry > now then (.error .notClaimable, rows)
      else
        let claimed := { entry with status := .sending, claimedAt := some now }
        (.ok claimed, rows.insert id claimed)

def staleClaim (now lease : Int) (entry : QueueEntry) : Bool :=
  entry.status = .sending && !entry.claimedAt.any fun claimed => now - claimed < lease

def requeued (now lease : Int) (entry : QueueEntry) : QueueEntry :=
  if staleClaim now lease entry
    then { entry with status := .pending, nextRetry := now, claimedAt := none }
    else entry

def requeueStaleClaims (now lease : Int) : Except QueueError Nat × QueueRows :=
  if fault then (.error .fault, rows)
  else (.ok (rows.toList.filter fun row => staleClaim now lease row.2).length,
    rows.map fun _ entry => requeued now lease entry)

def dequeue (id : EntryID) : Except QueueError Unit × QueueRows :=
  if fault then (.error .fault, rows) else (.ok (), rows.erase id)

def iterPageSize : Nat := 256

-- One page of a walk over the rows, from behind a key, and the key where the
-- next page starts. A walk is not a single transaction.
def pageAfter (after : Option EntryID) : List (EntryID × QueueEntry) :=
  (rows.toList.filter fun row => after.all fun key => compare key row.1 == .lt).take iterPageSize

def nextPage (page : List (EntryID × QueueEntry)) : Option EntryID :=
  if page.length < iterPageSize then none else page.getLast?.map Prod.fst

end Transactions

section Rows

variable {fault : Bool} {rows : QueueRows} {id other : EntryID} {entry : QueueEntry}

theorem getElem?_insert (rows : QueueRows) (id other : EntryID) (entry : QueueEntry) :
    (rows.insert id entry)[other]? = if id = other then some entry else rows[other]? := by
  rw [Std.ExtTreeMap.getElem?_insert]
  simp only [Std.LawfulEqOrd.compare_eq_iff_eq]

theorem getElem?_erase (rows : QueueRows) (id other : EntryID) :
    (rows.erase id)[other]? = if id = other then none else rows[other]? := by
  rw [Std.ExtTreeMap.getElem?_erase]
  simp only [Std.LawfulEqOrd.compare_eq_iff_eq]

-- A page has every row behind its start, up to where the next one starts.
theorem mem_pageAfter {after : Option EntryID} (hrow : rows[id]? = some entry)
    (hafter : ∀ key ∈ after, compare key id = .lt) :
    (id, entry) ∈ pageAfter rows after ∨
      ∃ last ∈ nextPage (pageAfter rows after), compare last id = .lt := by
  unfold pageAfter
  set behind := rows.toList.filter fun row => after.all fun key => compare key row.1 == .lt
    with hbehind
  have hmem : (id, entry) ∈ behind := by
    rw [List.mem_filter, Std.ExtTreeMap.mem_toList_iff_getElem?_eq_some]
    refine ⟨hrow, ?_⟩
    cases after with
    | none => rfl
    | some key => simpa using hafter key rfl
  have hsorted : behind.Pairwise fun a b => compare a.1 b.1 = .lt :=
    Std.ExtTreeMap.ordered_keys_toList.filter _
  rw [← List.take_append_drop iterPageSize behind] at hmem hsorted
  rcases List.mem_append.mp hmem with hin | hout
  · exact .inl hin
  right
  -- Something is left behind the page, so the page is full.
  have hlen : (behind.take iterPageSize).length = iterPageSize := by
    have hpos : 0 < (behind.drop iterPageSize).length := List.length_pos_of_mem hout
    rw [List.length_drop] at hpos
    rw [List.length_take]
    omega
  have hne : behind.take iterPageSize ≠ [] := by
    intro he
    rw [he] at hlen
    cases hlen
  refine ⟨((behind.take iterPageSize).getLast hne).1, ?_, ?_⟩
  · rw [nextPage, if_neg (by omega), List.getLast?_eq_some_getLast hne]
    rfl
  · exact (List.pairwise_append.mp hsorted).2.2 _ (List.getLast_mem hne) _ hout

end Rows

end UMail.Db
