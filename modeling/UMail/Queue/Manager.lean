import UMail.Queue.Machine

namespace UMail.Queue

open Concurrency UMail.Storage UMail.Db

def extractDomain (email : Bytes) : Bytes :=
  match email.splitOn 64 with
  | [_, domain] => domain
  | _ => []

structure Recipient where
  addr : Bytes
  notify : Nat
  ret : Nat
  envID : Bytes
  orcpt : Bytes
  deriving DecidableEq, Repr

def Recipient.plain (addr : Bytes) : Recipient := ⟨addr, 0, 0, [], []⟩

def newEntry (fromAddr : Bytes) (now : Int) (rcpt : Recipient) : QueueEntry where
  fromAddr := fromAddr
  toAddr := rcpt.addr
  createdAt := now
  nextRetry := now
  retryCount := 0
  lastError := []
  claimedAt := none
  status := .pending
  notify := rcpt.notify
  ret := rcpt.ret
  envID := rcpt.envID
  orcpt := rcpt.orcpt

section Enqueue

variable (fromAddr : Bytes) (base : Nat)

def rollback : Nat → Nat → Prog Unit
  | 0, _ => pure ()
  | count + 1, index => do
    let _ ← invoke (.dequeue ⟨base, index⟩)
    rollback count (index + 1)

def enqueueRows (now : Int) : List Recipient → Nat → Prog (Except QueueError Unit)
  | [], _ => pure (.ok ())
  | rcpt :: rest, index => do
    match ← invoke (.enqueueWithLimit ⟨base, index⟩ (newEntry fromAddr now rcpt)) with
    | .ok _ => enqueueRows now rest (index + 1)
    | .error err =>
      rollback base index 0
      invoke (.deleteFile base)
      pure (.error err)

def dispatchEntries : List Recipient → Nat → Prog Unit
  | [], _ => pure ()
  | rcpt :: rest, index => do
    let _ ← invoke (.send (⟨base, index⟩, rcpt.addr))
    dispatchEntries rest (index + 1)

def storeAndDispatch (rcpts : List Recipient) : Prog (Except QueueError Nat) := do
  let now ← invoke .now
  match ← enqueueRows fromAddr base now rcpts 0 with
  | .error err => pure (.error err)
  | .ok _ =>
    dispatchEntries base rcpts 0
    pure (.ok base)

end Enqueue

-- Stores its entries without the lock.
def enqueueWithDSN (fromAddr : Bytes) (rcpts : List Recipient) (message : Bytes) :
    Prog (Except QueueError Nat) := do
  if rcpts.isEmpty then
    pure (.error .noRecipients)
  else
    let base ← invoke .generateID
    match ← invoke (.writeSpool base message) with
    | .error _ => pure (.error .spool)
    | .ok _ => storeAndDispatch fromAddr base rcpts

def enqueue (fromAddr : Bytes) (rcpts : List Bytes) (message : Bytes) :
    Prog (Except QueueError Nat) := do
  if rcpts.isEmpty then
    pure (.error .noRecipients)
  else
    let base ← invoke .generateID
    match ← invoke (.writeSpool base message) with
    | .error _ => pure (.error .spool)
    | .ok _ =>
      invoke .lock
      let outcome ← storeAndDispatch fromAddr base (rcpts.map Recipient.plain)
      invoke .unlock
      pure outcome

-- Goes through the queue page by page. An error ends the walk, and what was
-- counted until then is the count.
def countMessageRefs (base : Nat) : Nat → Option EntryID → Nat → Prog Nat
  | 0, _, _ => do
    let stopped ← invoke .halt
    stopped.elim
  | pages + 1, after, count => do
    match ← invoke (.countRefs base after) with
    | .error _ => pure count
    | .ok (found, none) => pure (count + found)
    | .ok (found, some key) => countMessageRefs base pages (some key) (count + found)

def deleteMessageFileIfUnreferenced (pages base : Nat) : Prog Unit := do
  invoke .lock
  let refs ← countMessageRefs base pages none 0
  if refs = 0 then
    invoke (.removeMessage base)
  invoke .unlock

def retryEntry (id : EntryID) : Prog Unit := do
  match ← invoke (.getQueueEntry id) with
  | .error _ => pure ()
  | .ok entry =>
    let now ← invoke .now
    let retried := { entry with
      status := .pending, nextRetry := now, retryCount := 0, lastError := [] }
    invoke (.deleteMarker id)
    match ← invoke (.updateQueueEntry id retried) with
    | .error _ => pure ()
    | .ok _ =>
      let _ ← invoke (.send (id, entry.toAddr))
      pure ()

def dropEntry (pages : Nat) (id : EntryID) : Prog Unit := do
  match ← invoke (.getQueueEntry id) with
  | .error _ =>
    let _ ← invoke (.dequeue id)
    pure ()
  | .ok _ =>
    match ← invoke (.dequeue id) with
    | .error _ => pure ()
    | .ok _ =>
      invoke (.deleteMarker id)
      deleteMessageFileIfUnreferenced pages id.base

def persistAttempts : Nat := 6

def persistLoop (id : EntryID) (entry : QueueEntry) : Nat → Prog (Except QueueError Unit)
  | 0 => pure (.error .fault)
  | attempts + 1 => do
    match ← invoke (.updateQueueEntry id entry) with
    | .ok _ => pure (.ok ())
    | .error .notFound => pure (.error .notFound)
    | .error err => if attempts = 0 then pure (.error err) else persistLoop id entry attempts

def persistEntry (id : EntryID) (entry : QueueEntry) : Prog (Except QueueError Unit) := do
  invoke .readSettings
  persistLoop id entry persistAttempts

def notifyNever : Nat := 1
def notifySuccess : Nat := 2
def notifyFailure : Nat := 4
def notifyDelay : Nat := 8

section Delivery

variable (setup : Setup) (pages : Nat) (id : EntryID) (claimed : QueueEntry) (entry : QueueEntry)

-- A notification has the null sender, and its own failure is only logged.
def notifySender (message : Bytes) : Prog Unit := do
  let _ ← enqueue [] [entry.fromAddr] message
  pure ()

def sendSuccessDSN : Prog Unit := do
  if entry.fromAddr = [] then
    pure ()
  else
    let original ← invoke (.readSpool id.base)
    match setup.successDSN entry original.toOption with
    | none => pure ()
    | some message => notifySender entry message

def handleDeliverySuccess : Prog Unit := do
  invoke (.writeMarker id)
  let entry := { claimed with status := .delivered }
  match ← persistEntry id entry with
  | .error _ => pure ()
  | .ok _ =>
    invoke (.deleteMarker id)
    if entry.notify &&& notifySuccess ≠ 0 then
      sendSuccessDSN setup id entry
    deleteMessageFileIfUnreferenced pages id.base

def sendDelayDSN : Prog Unit := do
  if entry.fromAddr = [] then
    pure ()
  else
    match setup.delayDSN entry with
    | none => pure ()
    | some message => notifySender entry message

-- Without options the sender hears of a failure, with options only if they ask
-- for it.
def enqueueBounce : Prog Unit := do
  if entry.notify ≠ 0 ∧
      (entry.notify &&& notifyNever ≠ 0 ∨ entry.notify &&& notifyFailure = 0) then
    pure ()
  else
    match ← invoke (.readSpool id.base) with
    | .error _ => pure ()
    | .ok original =>
      if entry.fromAddr = [] then
        pure ()
      else
        notifySender entry (setup.bounce entry original)

def minute : Int := 60 * 10 ^ 9

def retryDelays : List Int :=
  [5, 15, 30, 60, 120, 240, 480, 960, 1440, 2880].map (· * minute)

def retryDelay (retryCount : Nat) : Int :=
  retryDelays.getD (min (retryCount - 1) (retryDelays.length - 1)) 0

def isExpired (createdAt : Int) : Prog Bool := do
  if setup.maxAge > 0 then
    let now ← invoke .now
    pure (now - createdAt ≥ setup.maxAge)
  else
    pure false

def failedEntry (errorMsg : Bytes) (permanent : Bool) : Prog QueueEntry := do
  invoke .readSettings
  let expired ← isExpired setup claimed.createdAt
  let lastError := if expired ∧ ¬permanent
    then errorMsg ++ bytes " (delivery expired after " ++ setup.maxAgeText ++ bytes ")"
    else errorMsg
  let entry := { claimed with lastError := lastError, retryCount := claimed.retryCount + 1 }
  if permanent ∨ expired ∨ entry.retryCount ≥ setup.maxRetries then
    pure { entry with status := .bounced }
  else
    let delay ← invoke (.jitter (retryDelay entry.retryCount))
    let now ← invoke .now
    pure { entry with status := .pending, nextRetry := now + delay }

def recordFailure : Prog Unit := do
  match ← persistEntry id entry with
  | .error _ => pure ()
  | .ok _ =>
    if entry.status = .bounced then
      deleteMessageFileIfUnreferenced pages id.base
    else if entry.retryCount = 1 ∧ entry.notify &&& notifyDelay ≠ 0 then
      sendDelayDSN setup entry
    else
      pure ()

-- The sender is told of a bounce before it is recorded.
def failDelivery (errorMsg : Bytes) (permanent : Bool) : Prog Unit := do
  let entry ← failedEntry setup claimed errorMsg permanent
  if entry.status = .bounced then
    enqueueBounce setup id entry
  recordFailure setup pages id entry

def attemptDelivery : Prog Unit := do
  -- An earlier attempt was accepted and could not be recorded.
  if ← invoke (.markerExists id) then
    handleDeliverySuccess setup pages id claimed
  else
    match ← invoke (.readSpool id.base) with
    | .error err =>
      failDelivery setup pages id claimed
        (bytes "failed to read message: " ++ setup.fileErrorText err) (err = .notExist)
    | .ok message =>
      if extractDomain claimed.toAddr = [] then
        failDelivery setup pages id claimed (bytes "invalid recipient domain") false
      else
        match ← invoke (.transmit id claimed.toAddr message) with
        | .delivered => handleDeliverySuccess setup pages id claimed
        | .temporary text => failDelivery setup pages id claimed text false
        | .permanent text => failDelivery setup pages id claimed text true

def deliver (dispatched : Dispatched) : Prog Unit := do
  let domain := setup.toLower (extractDomain dispatched.2)
  if ← invoke (.acquireDomainSlot domain) then
    let now ← invoke .now
    match ← invoke (.claimQueueEntry dispatched.1 now) with
    | .error _ => pure ()
    | .ok claimed => attemptDelivery setup pages dispatched.1 claimed
    invoke (.releaseDomainSlot domain)
  else
    invoke (.requeueLater dispatched)

def deliveryWorker : Prog Unit := do
  let dispatched ← invoke .receive
  deliver setup pages dispatched

def fireRequeued : Prog Unit := do
  let dispatched ← invoke .fireTimer
  let _ ← invoke (.send dispatched)
  pure ()

-- The due entries, with those found before an error when there is one.
def getPendingQueue (now : Int) : Nat → Option EntryID → List Dispatched → Prog (List Dispatched)
  | 0, _, _ => do
    let stopped ← invoke .halt
    stopped.elim
  | pages + 1, after, found => do
    match ← invoke (.pendingPage now after) with
    | .error _ => pure found
    | .ok (page, none) => pure (found ++ page)
    | .ok (page, some key) => getPendingQueue now pages (some key) (found ++ page)

def sendAll : List Dispatched → Prog Unit
  | [] => pure ()
  | dispatched :: rest => do
    let _ ← invoke (.send dispatched)
    sendAll rest

def sweepPendingEntries : Prog Unit := do
  invoke .readSettings
  if setup.claimLease > 0 then
    let now ← invoke .now
    let _ ← invoke (.requeueStaleClaims now)
  let now ← invoke .now
  let entries ← getPendingQueue now pages none []
  sendAll entries

end Delivery

-- What a thread of the server does with the queue. `pages` bounds how many
-- pages a walk over the queue reads before the thread is stopped for good.
inductive Task
  | enqueue (fromAddr : Bytes) (rcpts : List Bytes) (message : Bytes)
  | enqueueWithDSN (fromAddr : Bytes) (rcpts : List Recipient) (message : Bytes)
  | sweep (pages : Nat)
  | worker (pages : Nat)
  | timer
  | retry (id : EntryID)
  | drop (pages : Nat) (id : EntryID)

inductive Outcome
  | enqueued (result : Except QueueError Nat)
  | finished

def Task.program (setup : Setup) : Task → Prog Outcome
  | .enqueue fromAddr rcpts message => do
    let result ← Queue.enqueue fromAddr rcpts message
    pure (.enqueued result)
  | .enqueueWithDSN fromAddr rcpts message => do
    let result ← Queue.enqueueWithDSN fromAddr rcpts message
    pure (.enqueued result)
  | .sweep pages => do sweepPendingEntries setup pages; pure .finished
  | .worker pages => do deliveryWorker setup pages; pure .finished
  | .timer => do fireRequeued; pure .finished
  | .retry id => do retryEntry id; pure .finished
  | .drop pages id => do dropEntry pages id; pure .finished

def begin (setup : Setup) (tasks : List Task) : Config sig State Outcome :=
  ⟨⟨State.empty, []⟩, tasks.map (Task.program setup)⟩

def plainSetup : Setup where
  maxRetries := 11
  maxAge := 0
  claimLease := 30 * minute
  maxQueueSize := 10
  chanSize := 10
  maxPerDomain := 0
  toLower := id
  fileErrorText _ := []
  maxAgeText := []
  successDSN _ _ := none
  delayDSN _ := none
  bounce _ original := original

def choiceAt (clock : Int) : Choice := ⟨false, clock, 0, .delivered⟩

end UMail.Queue
