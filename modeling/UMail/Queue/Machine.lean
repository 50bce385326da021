import UMail.Concurrency.Program
import UMail.Db.Queue
import UMail.Storage.Metadata

namespace UMail.Queue

open Concurrency UMail.Storage UMail.Db

inductive FileError
  | notExist
  | fault
  deriving DecidableEq, Repr

-- The settings of a manager, and the texts it sends. A notification that
-- cannot be generated is missing.
structure Setup where
  maxRetries : Nat
  maxAge : Int
  claimLease : Int
  maxQueueSize : Nat
  chanSize : Nat
  maxPerDomain : Int
  toLower : Bytes → Bytes
  fileErrorText : FileError → Bytes
  maxAgeText : Bytes
  successDSN : QueueEntry → Option Bytes → Option Bytes
  delayDSN : QueueEntry → Option Bytes
  bounce : QueueEntry → Bytes → Bytes

inductive Attempt
  | delivered
  | temporary (text : Bytes)
  | permanent (text : Bytes)
  deriving DecidableEq, Repr

abbrev Dispatched := EntryID × Bytes

-- The atomic steps: one lock operation, one transaction, one file operation,
-- one channel operation, or one attempt at the remote server. The message file
-- and the entries of an enqueue call share their base. A thread that halts makes
-- no further step.
inductive Call
  | generateID
  | writeSpool (base : Nat) (message : Bytes)
  | readSpool (base : Nat)
  | deleteFile (base : Nat)
  | removeMessage (base : Nat)
  | writeMarker (id : EntryID)
  | deleteMarker (id : EntryID)
  | markerExists (id : EntryID)
  | lock
  | unlock
  | readSettings
  | now
  | jitter (base : Int)
  | enqueueWithLimit (id : EntryID) (entry : QueueEntry)
  | getQueueEntry (id : EntryID)
  | updateQueueEntry (id : EntryID) (entry : QueueEntry)
  | claimQueueEntry (id : EntryID) (now : Int)
  | requeueStaleClaims (now : Int)
  | dequeue (id : EntryID)
  | pendingPage (now : Int) (after : Option EntryID)
  | countRefs (base : Nat) (after : Option EntryID)
  | send (entry : Dispatched)
  | receive
  | requeueLater (entry : Dispatched)
  | fireTimer
  | acquireDomainSlot (domain : Bytes)
  | releaseDomainSlot (domain : Bytes)
  | transmit (id : EntryID) (toAddr message : Bytes)
  | halt

abbrev Call.Result : Call → Type
  | .generateID => Nat
  | .writeSpool _ _ => Except FileError Unit
  | .readSpool _ => Except FileError Bytes
  | .deleteFile _ | .removeMessage _ | .writeMarker _ | .deleteMarker _ => Unit
  | .markerExists _ => Bool
  | .lock | .unlock | .readSettings => Unit
  | .now | .jitter _ => Int
  | .enqueueWithLimit _ _ | .updateQueueEntry _ _ | .dequeue _ => Except QueueError Unit
  | .getQueueEntry _ | .claimQueueEntry _ _ => Except QueueError QueueEntry
  | .requeueStaleClaims _ => Except QueueError Nat
  | .pendingPage _ _ => Except QueueError (List Dispatched × Option EntryID)
  | .countRefs _ _ => Except QueueError (Nat × Option EntryID)
  | .send _ => Bool
  | .receive | .fireTimer => Dispatched
  | .requeueLater _ => Unit
  | .acquireDomainSlot _ => Bool
  | .releaseDomainSlot _ => Unit
  | .transmit _ _ _ => Attempt
  | .halt => Empty

abbrev sig : Signature := ⟨Call, Call.Result⟩

structure State where
  rows : QueueRows
  spool : Std.ExtTreeMap Nat Bytes
  markers : List EntryID
  mu : Option Nat
  chan : List Dispatched
  timers : List Dispatched
  active : Bytes → Nat
  nextBase : Nat

structure Choice where
  fault : Bool
  clock : Int
  delay : Int
  attempt : Attempt
  deriving DecidableEq, Repr

section Exec

variable (setup : Setup) (thread : Nat) (choice : Choice) (s : State)

def State.transact {α : Type} (out : Except QueueError α × QueueRows) :
    Except QueueError α × State :=
  (out.1, { s with rows := out.2 })

def duePage (now : Int) (page : List (EntryID × QueueEntry)) : List Dispatched :=
  (page.filter fun row => row.2.status = .pending && row.2.nextRetry < now).map
    fun row => (row.1, row.2.toAddr)

def countPage (base : Nat) (page : List (EntryID × QueueEntry)) : Nat :=
  (page.filter fun row => row.1.base = base && !row.2.final).length

def State.page {α : Type} (after : Option EntryID) (fn : List (EntryID × QueueEntry) → α) :
    Except QueueError (α × Option EntryID) :=
  if choice.fault then .error .fault
  else .ok (fn (pageAfter s.rows after), nextPage (pageAfter s.rows after))

-- Removing a file can fail without anybody noticing.
def State.deleteSpool (base : Nat) : State :=
  if choice.fault then s else { s with spool := s.spool.erase base }

def State.setActive (domain : Bytes) (count : Nat) : State :=
  { s with active := fun other => if other = domain then count else s.active other }

-- The randomised delay is within a fifth of the delay that was asked for.
def jittered (base delay : Int) : Bool := 8 * base ≤ 10 * delay && 10 * delay ≤ 12 * base

def exec : (c : Call) → Option (c.Result × State)
  | .generateID => some (s.nextBase, { s with nextBase := s.nextBase + 1 })
  | .writeSpool base message =>
    if choice.fault then some (.error .fault, s)
    else some (.ok (), { s with spool := s.spool.insert base message })
  | .readSpool base => some (if choice.fault then .error .fault
      else match s.spool[base]? with
        | none => .error .notExist
        | some message => .ok message, s)
  | .deleteFile base | .removeMessage base => some ((), s.deleteSpool choice base)
  | .writeMarker id =>
    some ((), if choice.fault then s else { s with markers := id :: s.markers })
  | .deleteMarker id => some ((),
      if choice.fault then s else { s with markers := s.markers.filter (· ≠ id) })
  | .markerExists id => some (!choice.fault && s.markers.contains id, s)
  | .lock => if s.mu = none then some ((), { s with mu := some thread }) else none
  | .unlock => if s.mu = some thread then some ((), { s with mu := none }) else none
  -- The settings are read under the read side of the lock.
  | .readSettings => if s.mu = none then some ((), s) else none
  | .now => some (choice.clock, s)
  | .jitter base => if jittered base choice.delay then some (choice.delay, s) else none
  | .enqueueWithLimit id entry =>
    some (s.transact (enqueueWithLimit choice.fault s.rows id entry setup.maxQueueSize))
  | .getQueueEntry id => some (getQueueEntry choice.fault s.rows id, s)
  | .updateQueueEntry id entry => some (s.transact (updateQueueEntry choice.fault s.rows id entry))
  | .claimQueueEntry id now => some (s.transact (claimQueueEntry choice.fault s.rows now id))
  | .requeueStaleClaims now =>
    some (s.transact (requeueStaleClaims choice.fault s.rows now setup.claimLease))
  | .dequeue id => some (s.transact (dequeue choice.fault s.rows id))
  | .pendingPage now after => some (s.page choice after (duePage now), s)
  | .countRefs base after => some (s.page choice after (countPage base), s)
  | .send entry =>
    if s.chan.length < setup.chanSize then some (true, { s with chan := s.chan ++ [entry] })
    else some (false, s)
  | .receive =>
    match s.chan with
    | [] => none
    | entry :: rest => some (entry, { s with chan := rest })
  | .requeueLater entry => some ((), { s with timers := s.timers ++ [entry] })
  | .fireTimer =>
    match s.timers with
    | [] => none
    | entry :: rest => some (entry, { s with timers := rest })
  | .acquireDomainSlot domain =>
    if setup.maxPerDomain ≤ 0 then some (true, s)
    else if (s.active domain : Int) ≥ setup.maxPerDomain then some (false, s)
    else some (true, s.setActive domain (s.active domain + 1))
  | .releaseDomainSlot domain => some ((), s.setActive domain (s.active domain - 1))
  | .transmit _ _ _ => some (choice.attempt, s)
  | .halt => none

end Exec

abbrev Prog := Program sig

abbrev invoke (c : Call) : Prog c.Result := Program.perform (S := sig) c

def machine (setup : Setup) : Machine sig State Choice where
  exec thread c choice s := exec setup thread choice s c

def State.empty : State := ⟨∅, ∅, [], none, [], [], fun _ => 0, 0⟩

end UMail.Queue
