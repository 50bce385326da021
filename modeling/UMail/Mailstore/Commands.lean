import UMail.Imap.SeqView
import UMail.Mailstore.Move

namespace UMail.Mailstore

open Concurrency UMail.Storage UMail.Db UMail.Imap

-- What the commands of a session in the selected state look at: the mailbox,
-- and the UIDs behind the sequence numbers the client was told.
structure Selected where
  mailbox : Bytes
  readOnly : Bool
  snap : List UInt32
  snapOn : Bool
  deriving DecidableEq, Repr

inductive Reply
  | readOnly
  | invalidSequenceNumber
  | invalidSequenceSet
  | tryCreate
  | failed (e : MailError)
  | completed
  | copied (uidValidity : UInt32) (source dest : List UInt32)
  deriving DecidableEq, Repr

section Translation

variable (s : Selected)

-- The map from UIDs to live positions. The first UID of the list has position
-- i, and of equal UIDs the last one counts.
def liveSeq : Nat → List UInt32 → UInt32 → Option UInt32
  | _, [], _ => none
  | i, u :: rest, uid =>
    (liveSeq (i + 1) rest uid).or (if u = uid then some (UInt32.ofNat i) else none)

def Selected.named (set : Bytes) : List UInt32 :=
  match parseSequenceSet set with
  | .error _ => []
  | .ok ranges => selectUIDs ranges s.snap

def liveSet (live uids : List UInt32) : Bytes :=
  joinComma ((uids.filterMap (liveSeq 1 live)).map formatUint)

def seqToLive (set : Bytes) : Prog (Except MailError Bytes) :=
  if s.snapOn then
    match parseSequenceSet set with
    | .error _ => pure (.error .sequenceSet)
    | .ok [] => pure (.ok [])
    | .ok ranges => do
      match ← invoke (.getMessageUIDs s.mailbox) with
      | .error e => pure (.error (.storage e))
      | .ok live => pure (.ok (liveSet live (selectUIDs ranges s.snap)))
  else pure (.ok set)

-- A range without an end in the mailbox is refused before anything else.
def seqSetInRange (set : Bytes) : Bool :=
  match parseSequenceSet set with
  | .error _ => true
  | .ok ranges => !s.snapOn || ranges.all fun r =>
    r.first = 0 || r.last = 0 ||
      decide ((if r.last < r.first then r.last else r.first) ≤ UInt32.ofNat s.snap.length)

end Translation

section Handlers

variable (setup : Setup) (s : Selected)

def storeSel (set : Bytes) (flags : List Bytes) (op : FlagOperation) :
    Prog (Except MailError Unit) := do
  match ← seqToLive s set with
  | .error e => pure (.error e)
  | .ok live => storeFlags s.mailbox live flags op

def fetchSel (set : Bytes) : Prog (List (UInt32 × UInt32)) := do
  match ← seqToLive s set with
  | .error _ => pure []
  | .ok live =>
    match parseSequenceSet live with
    | .error _ => pure []
    | .ok ranges =>
      match ← readUIDs s.mailbox with
      | .error _ => pure []
      | .ok uids => do
        let messages ← fetchEach s.mailbox
          (selectFrom ranges (UInt32.ofNat uids.length) 1 uids)
        pure (messages.filterMap fun message =>
          if s.snapOn then (snapSeq s.snap message.2).map (·, message.2)
          else some (UInt32.ofNat message.1, message.2))

def fetchUnlessSilent (set : Bytes) (silent : Bool) : Prog (List (UInt32 × UInt32)) :=
  if silent then pure [] else fetchSel s set

def handleStore (set : Bytes) (flags : List Bytes) (op : FlagOperation) (silent : Bool) :
    Prog Reply :=
  if s.readOnly then pure .readOnly
  else if seqSetInRange s set then do
    match ← storeSel s set flags op with
    | .error e => pure (.failed e)
    | .ok () => do
      let _ ← fetchUnlessSilent s set silent
      pure .completed
  else pure .invalidSequenceNumber

-- COPY and MOVE do not create their destination.
def copyDestination (dest : Bytes) : Prog (Except Reply Unit) :=
  if dest = inboxName then pure (.ok ())
  else do
    match ← invoke (.listedMailbox dest) with
    | .error e => pure (.error (.failed (.storage e)))
    | .ok listed => pure (if listed then .ok () else .error .tryCreate)

def copyReply (copied : Except MailError (UInt32 × Copied)) : Reply :=
  match copied with
  | .error e => .failed e
  | .ok (validity, copied) =>
    if validity ≠ 0 ∧ copied.source ≠ [] ∧ copied.source.length = copied.dest.length
      then .copied validity copied.source copied.dest
      else .completed

variable (set dest : Bytes)

def copyTo : Prog Reply := do
  match ← seqToLive s set with
  | .error _ => pure .invalidSequenceSet
  | .ok live =>
    match ← copyDestination dest with
    | .error reply => pure reply
    | .ok () => do
      let copied ← copyMessagesUIDs setup s.mailbox dest live
      pure (copyReply copied)

def handleCopy : Prog Reply :=
  if seqSetInRange s set then copyTo setup s set dest else pure .invalidSequenceNumber

def moveTo : Prog Reply := do
  match ← seqToLive s set with
  | .error _ => pure .invalidSequenceSet
  | .ok live =>
    match ← copyDestination dest with
    | .error reply => pure reply
    | .ok () => do
      match ← moveLive setup s.mailbox dest live with
      | .error e => pure (.failed e)
      | .ok () => pure .completed

def handleMove : Prog Reply :=
  if s.readOnly then pure .readOnly
  else if seqSetInRange s set then moveTo setup s set dest
  else pure .invalidSequenceNumber

end Handlers

inductive Command
  | store (set : Bytes) (flags : List Bytes) (op : FlagOperation) (silent : Bool)
  | copy (set dest : Bytes)
  | move (set dest : Bytes)

def Command.set : Command → Bytes
  | .store set _ _ _ | .copy set _ | .move set _ => set

def Command.program (setup : Setup) (s : Selected) : Command → Prog Unit
  | .store set flags op silent => do
    let _ ← handleStore s set flags op silent
    pure ()
  | .copy set dest => do
    let _ ← handleCopy setup s set dest
    pure ()
  | .move set dest => do
    let _ ← handleMove setup s set dest
    pure ()

-- The session is the first thread. The others can be anything.
def commandPool (setup : Setup) (state : State) (s : Selected) (command : Command)
    (others : List (Prog Unit)) : Config sig State Unit :=
  ⟨⟨state, []⟩, command.program setup s :: others⟩

def rowsStored (own : List (Event sig)) : List (Bytes × UInt32) :=
  own.filterMap fun event => rowStored event.call event.result

-- The message of the mailbox that a call changes, removes or copies. A thread
-- that takes back a row it has stored itself harms nobody.
def affects (mailbox : Bytes) (own : List (Event sig)) : (c : Call) → c.Result → Option UInt32
  | .updateMessageMetadataFunc box uid _, .ok _ | .updateMessageMetadata box uid _, .ok _ =>
    if box = mailbox then some uid else none
  | .deleteMessage box uid, .ok _ =>
    if box = mailbox ∧ (box, uid) ∉ rowsStored own then some uid else none
  | .storeMessageMetadata _ _ _, .ok _ => lastRead mailbox own
  | _, _ => none

def affected (mailbox : Bytes) : List (Event sig) → List UInt32
  | [] => []
  | event :: rest =>
    (affects mailbox rest event.call event.result).toList ++ affected mailbox rest

def OnlyNamed (s : Selected) (command : Command) (w : World sig State) : Prop :=
  ∀ uid ∈ affected s.mailbox (ownLog 0 w.log), uid ∈ s.named command.set

-- The client knows two messages, and the first one is marked as deleted.
def shiftedState : State where
  db := storeMessageMetadataTx demoSetup.user inboxName 2
    { MessageMetadata.empty with messageID := demoSetup.hash (bytes "0"), uid := 2, size := 1 }
    (storeMessageMetadataTx demoSetup.user inboxName 1
      { MessageMetadata.empty with
        messageID := demoSetup.hash (bytes "1"), uid := 1, size := 1, flags := [deletedFlag] } .empty)
  blobs := ((∅ : Blobs).insert (demoSetup.hash (bytes "0")) ⟨bytes "0", 0⟩).insert
    (demoSetup.hash (bytes "1")) ⟨bytes "1", 0⟩
  account := ⟨true, 2, 0⟩
  held _ := none

def shiftedView : Selected := ⟨inboxName, false, [1, 2], true⟩

def shiftedCommand : Command := .store (bytes "1") [bytes "\\Seen"] .flagAdd true

def shiftedSchedule : List (Nat × Choice) :=
  [(0, demoChoice)] ++ List.replicate 5 (1, demoChoice) ++ List.replicate 2 (0, demoChoice)

theorem onlyNamed_fails_shifted :
    ¬ ∀ (setup : Setup) (state : State) (s : Selected) (command : Command)
        (others : List (List Operation)) (cfg : Config sig State Unit), s.snapOn = true →
      Run (machine setup) (fun _ _ _ _ => True)
        (commandPool setup state s command (others.map (Operation.session setup))) cfg →
      OnlyNamed s command cfg.world := by
  intro h
  have hrun : ((commandPool demoSetup shiftedState shiftedView shiftedCommand
      ([[.expungeReport inboxName]].map (Operation.session demoSetup))).replay (machine demoSetup)
      (fun _ _ _ _ => True) shiftedSchedule).any (fun cfg =>
        decide (2 ∈ affected inboxName (ownLog 0 cfg.world.log))) = true := by
    decide
  obtain ⟨cfg, hcfg, hfact⟩ := (Option.any_eq_true _ _).mp hrun
  have hnamed := h demoSetup shiftedState shiftedView shiftedCommand [[.expungeReport inboxName]] cfg
    rfl (.of_replay hcfg) 2 (of_decide_eq_true hfact)
  exact absurd hnamed (by decide)

end UMail.Mailstore
