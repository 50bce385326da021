import UMail.Imap.SequenceSet
import UMail.Storage.Changes

namespace UMail.Jmap

open UMail.Imap (formatLoop parseDigits)
open UMail.Storage

inductive Value
  | null
  | string (s : Bytes)
  | number (x : Rat)
  | other
  deriving DecidableEq

def Value.asString : Option Value → Option Bytes
  | some (.string s) => some s
  | _ => none

def Value.asNumber : Option Value → Option Rat
  | some (.number x) => some x
  | _ => none

inductive MethodError
  | accountNotFound
  | invalidArguments (description : Bytes) (properties : List Bytes)
  | cannotCalculateChanges (description : Bytes)
  deriving DecidableEq

def validateAccountId (accountId user : Bytes) : Except MethodError Unit :=
  if accountId ≠ [] ∧ accountId ≠ user then .error .accountNotFound else .ok ()

section States

def formatState (seq : UInt64) : Bytes := formatLoop 20 seq.toNat []

def currentChangeState (changes : Changes) (user : Bytes) : Bytes :=
  formatState (changes.journal user).sequence

-- A text that is no number is read as the state before the first change.
def parseChangeState (state : Bytes) : UInt64 :=
  if state = [] then 0
  else match (parseDigits 0 state).filter (· < 2 ^ 64) with
    | some v => UInt64.ofNat v
    | none => 0

end States

section Fold

structure Fold where
  created : Bool
  updated : Bool
  destroyed : Bool
  createdMbox : Bytes
  destroyedMbox : Bytes
  deriving DecidableEq, Repr

def Fold.empty : Fold := ⟨false, false, false, [], []⟩

def Fold.add (f : Fold) (e : ChangeEntry) : Fold :=
  match e.kind with
  | .created => { f with created := true, createdMbox := e.mailbox }
  | .updated => { f with updated := true }
  | .destroyed => { f with destroyed := true, destroyedMbox := e.mailbox }

def addEntry (state : List (Bytes × Fold)) (e : ChangeEntry) : List (Bytes × Fold) :=
  if state.any (·.1 == e.id)
    then state.map fun p => if p.1 = e.id then (p.1, p.2.add e) else p
    else state ++ [(e.id, Fold.empty.add e)]

def foldEntries (entries : List ChangeEntry) : List (Bytes × Fold) := entries.foldl addEntry []

def Fold.moved (f : Fold) : Bool := f.created && f.destroyed && f.createdMbox != f.destroyedMbox

def Fold.listed (f : Fold) : Option ChangeKind :=
  -- The object never existed within this window.
  if f.created && f.destroyed && !f.moved then none
  else if f.moved then some .updated
  else if f.destroyed then some .destroyed
  else if f.created then some .created
  else if f.updated then some .updated
  else none

def listedAs (kind : ChangeKind) (state : List (Bytes × Fold)) : List Bytes :=
  (state.filter fun p => p.2.listed = some kind).map Prod.fst

end Fold

section Call

structure ChangesArgs where
  accountId : Option Value
  sinceState : Option Value
  maxChanges : Option Value
  deriving DecidableEq

-- The property updatedProperties is null where it is present.
structure ChangesResponse where
  accountId : Bytes
  oldState : Bytes
  newState : Bytes
  hasMoreChanges : Bool
  created : List Bytes
  updated : List Bytes
  destroyed : List Bytes
  updatedProperties : Bool
  deriving DecidableEq, Repr

def maxChangesOf (arg : Option Value) : Except MethodError Int :=
  let maxChanges := (Value.asNumber arg).getD 0
  if arg ≠ none ∧ arg ≠ some .null ∧ (Value.asNumber arg = none ∨ maxChanges < 1) then
    .error (.invalidArguments (bytes "maxChanges must be a positive integer") [bytes "maxChanges"])
  else if maxChanges = 0 ∨ maxChanges > 256 then .ok 256
  else .ok maxChanges.floor

-- The first half of handleChanges: the checks, and the entries that are read.
def readChanges (changes : Changes) (user : Bytes) (type : ChangeType) (args : ChangesArgs) :
    Except MethodError Page := do
  validateAccountId ((Value.asString args.accountId).getD []) user
  match Value.asString args.sinceState with
  | none => .error (.invalidArguments (bytes "sinceState is required") [bytes "sinceState"])
  | some sinceState =>
    let maxChanges ← maxChangesOf args.maxChanges
    let since := parseChangeState sinceState
    if since > parseChangeState (currentChangeState changes user) then
      .error (.cannotCalculateChanges (bytes "sinceState is newer than the current state"))
    else .ok (changes.getChangesSince user type since maxChanges)

-- Mailbox/changes, Email/changes and Thread/changes. Only the first has the
-- updated properties.
def handleChanges (changes : Changes) (user : Bytes) (type : ChangeType) (includeUpdatedProps : Bool)
    (args : ChangesArgs) : Except MethodError ChangesResponse := do
  let page ← readChanges changes user type args
  let state := foldEntries page.entries
  .ok { accountId := (Value.asString args.accountId).getD []
        oldState := (Value.asString args.sinceState).getD []
        newState := formatState page.lastSeq
        hasMoreChanges := page.hasMore
        created := listedAs .created state
        updated := listedAs .updated state
        destroyed := listedAs .destroyed state
        updatedProperties := includeUpdatedProps }

end Call

end UMail.Jmap
