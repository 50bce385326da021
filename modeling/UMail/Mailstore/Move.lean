import UMail.Concurrency.History
import UMail.Mailstore.Books
import UMail.Mailstore.Operations.Calls

namespace UMail.Mailstore

open Concurrency UMail.Storage UMail.Db UMail.Imap

structure MoveCommand where
  dest : Bytes
  seqSet : Bytes
  deriving DecidableEq, Repr

inductive ExpungeCommand
  | report
  | subset (uids : List UInt32)
  deriving DecidableEq, Repr

section Sessions

variable (setup : Setup) (source : Bytes)

def MoveCommand.program (move : MoveCommand) : Prog Unit := do
  let _ ← moveLive setup source move.dest move.seqSet
  pure ()

def ExpungeCommand.program : ExpungeCommand → Prog Unit
  | .report => do
    let _ ← expungeReport source
    pure ()
  | .subset uids => do
    let _ ← expungeUIDSubset source uids
    pure ()

def ExpungeCommand.session : List ExpungeCommand → Prog Unit
  | [] => pure ()
  | command :: rest => do
    command.program source
    session rest

-- Sessions that each move messages out of one mailbox, followed by sessions
-- that expunge it.
def movePool (state : State) (moves : List MoveCommand) (expunges : List (List ExpungeCommand)) :
    Config sig State Unit :=
  ⟨⟨state, []⟩, moves.map (MoveCommand.program setup source) ++
    expunges.map (ExpungeCommand.session source)⟩

end Sessions

def listRead (source : Bytes) : (c : Call) → c.Result → Option (List UInt32)
  | .getMessageUIDs mailbox, .ok uids => if mailbox = source then some uids else none
  | _, _ => none

def rowRead (source : Bytes) : (c : Call) → c.Result → Option UInt32
  | .getMessageMetadata mailbox uid, .ok _ => if mailbox = source then some uid else none
  | _, _ => none

def rowStored : (c : Call) → c.Result → Option (Bytes × UInt32)
  | .storeMessageMetadata mailbox uid _, .ok _ => some (mailbox, uid)
  | _, _ => none

section History

variable (source : Bytes)

def firstRead : List (Event sig) → Option (List UInt32)
  | [] => none
  | event :: rest => (firstRead rest).or (listRead source event.call event.result)

def lastRead : List (Event sig) → Option UInt32
  | [] => none
  | event :: rest => (rowRead source event.call event.result).or (lastRead rest)

-- A message of the mailbox with the row that was made for it elsewhere.
structure CopyMade where
  uid : UInt32
  dest : Bytes
  newUID : UInt32
  deriving DecidableEq, Repr

def copiesMade : List (Event sig) → List CopyMade
  | [] => []
  | event :: rest =>
    match rowStored event.call event.result, lastRead source rest with
    | some (dest, newUID), some uid => ⟨uid, dest, newUID⟩ :: copiesMade rest
    | _, _ => copiesMade rest

end History

def CopiedOnce (setup : Setup) (source : Bytes) (w : World sig State) : Prop :=
  ∀ i j a b, a ∈ copiesMade source (ownLog i w.log) → b ∈ copiesMade source (ownLog j w.log) →
    a.uid = b.uid → (w.state.db.row setup.user a.dest a.newUID).isSome →
    (w.state.db.row setup.user b.dest b.newUID).isSome → a.dest = b.dest ∧ a.newUID = b.newUID

def Finished (cfg : Config sig State Unit) : Prop :=
  ∀ program ∈ cfg.pool, program = .done ()

-- Once the sessions are over no message has been copied twice, and at no time a
-- message comes back to the mailbox after it was removed from it.
def MoveSafe (setup : Setup) (source : Bytes) (start : Config sig State Unit) : Prop :=
  (∀ cfg, Run (machine setup) (fun _ _ _ _ => True) start cfg → Finished cfg →
    CopiedOnce setup source cfg.world) ∧
  ∀ first second third, Run (machine setup) (fun _ _ _ _ => True) start first →
    Run (machine setup) (fun _ _ _ _ => True) first second →
    Run (machine setup) (fun _ _ _ _ => True) second third →
    ∀ uid, (first.world.state.db.row setup.user source uid).isSome →
      second.world.state.db.row setup.user source uid = none →
      third.world.state.db.row setup.user source uid = none

-- A mailbox with one message, which two sessions move to different places.
def rivalState : State where
  db := storeMessageMetadataTx demoSetup.user inboxName 1
    { MessageMetadata.empty with messageID := demoSetup.hash (bytes "0"), uid := 1, size := 1 } .empty
  blobs := (∅ : Blobs).insert (demoSetup.hash (bytes "0")) ⟨bytes "0", 0⟩
  account := ⟨true, 1, 0⟩
  held _ := none

def rivalMoves : List MoveCommand := [⟨bytes "A", bytes "1"⟩, ⟨bytes "B", bytes "1"⟩]

def rivalSchedule : List (Nat × Choice) :=
  [(0, demoChoice), (1, demoChoice)] ++ List.replicate 9 (0, demoChoice) ++
    List.replicate 9 (1, demoChoice) ++
    List.replicate 16 (0, { demoChoice with order := [demoSetup.hash (bytes "0")] }) ++
    List.replicate 18 (1, { demoChoice with order := [[]] })

theorem moveSafe_fails_rival :
    ¬ ∀ (setup : Setup) (state : State) (source : Bytes) (moves : List MoveCommand)
        (expunges : List (List ExpungeCommand)), (∀ move ∈ moves, move.dest ≠ source) →
      MoveSafe setup source (movePool setup source state moves expunges) := by
  intro h
  have hrun : ((movePool demoSetup inboxName rivalState rivalMoves []).replay (machine demoSetup)
      (fun _ _ _ _ => True) rivalSchedule).any (fun cfg =>
        cfg.pool.all Program.isDone &&
        decide (⟨1, bytes "A", 1⟩ ∈ copiesMade inboxName (ownLog 0 cfg.world.log)) &&
        decide (⟨1, bytes "B", 1⟩ ∈ copiesMade inboxName (ownLog 1 cfg.world.log)) &&
        (cfg.world.state.db.row demoSetup.user (bytes "A") 1).isSome &&
        (cfg.world.state.db.row demoSetup.user (bytes "B") 1).isSome) = true := by
    decide
  obtain ⟨cfg, hcfg, hfacts⟩ := (Option.any_eq_true _ _).mp hrun
  simp only [Bool.and_eq_true, decide_eq_true_eq, List.all_eq_true] at hfacts
  obtain ⟨⟨⟨⟨hdone, ha⟩, hb⟩, hrowA⟩, hrowB⟩ := hfacts
  have hsafe := h demoSetup rivalState inboxName rivalMoves [] (by decide)
  have honce := hsafe.1 cfg (.of_replay hcfg) (fun program hp => Program.eq_done_of_isDone (hdone program hp))
    0 1 _ _ ha hb rfl hrowA hrowB
  exact absurd honce.1 (by decide)

end UMail.Mailstore
