import UMail.Imap.Search
import UMail.Mailstore.Commands.Theorems

namespace UMail.Mailstore

open Concurrency UMail.Storage UMail.Db UMail.Imap

inductive SearchFailure
  | mail (e : MailError)
  | program (e : SearchError)
  deriving DecidableEq, Repr

-- What an evaluation has found: the numbers the server goes on with, each next
-- to the UID that had it in the scan, and the messages that match, told apart by
-- their UIDs. The server keeps the numbers only.
structure Evaluated where
  found : List (Nat × UInt32)
  matched : List UInt32
  deriving DecidableEq, Repr

def Evaluated.numbers (e : Evaluated) : List Nat := e.found.map Prod.fst

-- Keeps the numbers, and the messages, that are or are not in another result.
def Evaluated.restrict (base : Evaluated) (numbers : List Nat) (uids : List UInt32) (keep : Bool) :
    Evaluated :=
  ⟨base.found.filter fun m => numbers.contains m.1 == keep,
    base.matched.filter fun uid => uids.contains uid == keep⟩

section Evaluation

variable (kit : Toolkit) (s : Selected) (recent : List UInt32) (c : SearchCriteria)

-- The row of a message, and its file for the keys that look at it.
def searchRow (uid : UInt32) : Prog (Except SearchError Bool) := do
  match ← invoke (.getMessageMetadata s.mailbox uid) with
  | .error _ => pure (.ok false)
  | .ok metadata =>
    if needsData c then
      match ← invoke (.readMessage metadata.messageID) with
      | .error _ => pure (.ok false)
      | .ok data => pure (matchesCriteria kit recent metadata (some data) c)
    else pure (matchesCriteria kit recent metadata none c)

def inSets (seqRanges uidRanges : List SeqRange) (uids : List UInt32) (p : Nat)
    (uid : UInt32) : Bool :=
  (c.seqSet = [] || inRanges seqRanges (UInt32.ofNat p) (UInt32.ofNat uids.length)) &&
    (c.uidSet = [] || inRanges uidRanges uid (uids.foldl (fun hi uid => if uid > hi then uid else hi) 0))

def scanMessage (seqRanges uidRanges : List SeqRange) (uids : List UInt32)
    (p : Nat) (uid : UInt32) : Prog (Except SearchError Bool) :=
  if inSets c seqRanges uidRanges uids p uid then searchRow kit s recent c uid else pure (.ok false)

def scanEach (c : SearchCriteria) (seqRanges uidRanges : List SeqRange) (uids : List UInt32) :
    List (Nat × UInt32) → Prog (Except SearchFailure (List (Nat × UInt32)))
  | [] => pure (.ok [])
  | (p, uid) :: rest => do
    match ← scanMessage kit s recent c seqRanges uidRanges uids p uid with
    | .error e => pure (.error (.program e))
    | .ok hit =>
      match ← scanEach c seqRanges uidRanges uids rest with
      | .error e => pure (.error e)
      | .ok results => pure (.ok (if hit then (p, uid) :: results else results))

def searchMessages : Prog (Except SearchFailure (List (Nat × UInt32))) := do
  match ← invoke (.getMessageUIDs s.mailbox) with
  | .error e => pure (.error (.mail (.storage e)))
  | .ok uids =>
    match parseSet c.seqSet with
    | .error e => pure (.error (.program e))
    | .ok seqRanges =>
      match parseSet c.uidSet with
      | .error e => pure (.error (.program e))
      | .ok uidRanges => scanEach kit s recent c seqRanges uidRanges uids (positions 1 uids)

def named (c : SearchCriteria) (uid : UInt32) : Bool :=
  !(s.snapOn && c.seqSet ≠ []) || (s.named c.seqSet).contains uid

def scanned : Except SearchFailure (List (Nat × UInt32)) → Except SearchFailure Evaluated
  | .error e => .error e
  | .ok found => .ok ⟨found, (found.map Prod.snd).filter (named s c)⟩

def evalFlat : Prog (Except SearchFailure Evaluated) :=
  if s.snapOn && c.seqSet ≠ [] then do
    match ← seqToLive s c.seqSet with
    | .error e => pure (.error (.mail e))
    | .ok live =>
      if live = [] then pure (.ok ⟨[], []⟩)
      else do
        let found ← searchMessages kit s recent { c with seqSet := live }
        pure (scanned s c found)
  else do
    let found ← searchMessages kit s recent c
    pure (scanned s c found)

mutual

def evalSearch : SearchExpr → Prog (Except SearchFailure Evaluated)
  | .mk flat terms => do
    match ← evalFlat kit s recent flat with
    | .error e => pure (.error e)
    | .ok base => evalTerms terms base

def evalTerms : List SearchTerm → Evaluated → Prog (Except SearchFailure Evaluated)
  | [], base => pure (.ok base)
  | t :: terms, base =>
    if base.found = [] then pure (.ok base)
    else do
      match ← evalTerm t base with
      | .error e => pure (.error e)
      | .ok base => evalTerms terms base

def evalTerm : SearchTerm → Evaluated → Prog (Except SearchFailure Evaluated)
  | .not e, base => do
    match ← evalSearch e with
    | .error e => pure (.error e)
    | .ok x => pure (.ok (base.restrict x.numbers x.matched false))
  | .sub e, base => do
    match ← evalSearch e with
    | .error e => pure (.error e)
    | .ok x => pure (.ok (base.restrict x.numbers x.matched true))
  | .or a b, base => do
    match ← evalSearch a with
    | .error e => pure (.error e)
    | .ok x =>
      match ← evalSearch b with
      | .error e => pure (.error e)
      | .ok y => pure (.ok (base.restrict (x.numbers ++ y.numbers) (x.matched ++ y.matched) true))

end

end Evaluation

def fetchMessages (mailbox set : Bytes) : Prog (Except MailError (List (Nat × UInt32))) := do
  match parseSequenceSet set with
  | .error _ => pure (.error .sequenceSet)
  | .ok ranges =>
    match ← readUIDs mailbox with
    | .error e => pure (.error e)
    | .ok uids => do
      let messages ← fetchEach mailbox (selectFrom ranges (UInt32.ofNat uids.length) 1 uids)
      pure (.ok messages)

structure Answer where
  numbers : List UInt32
  matched : List UInt32
  deriving DecidableEq, Repr

inductive SearchKind
  | search | sort | thread
  deriving DecidableEq, Repr

structure SearchRequest where
  kind : SearchKind
  uidResults : Bool
  program : SearchExpr

-- The order of SORT and of the threads, which leaves no message in that was not.
structure Arrangement where
  arrange : List (UInt32 × UInt32) → List (UInt32 × UInt32)
  mem : ∀ {messages m}, m ∈ arrange messages → m ∈ messages

section Commands

variable (kit : Toolkit) (s : Selected) (recent : List UInt32) (order : Arrangement)

def sessionNumber (live : List UInt32) (q : Nat) : Option UInt32 :=
  if q = 0 ∨ q > live.length then none else live[q - 1]?.bind (snapSeq s.snap)

def liveSeqsToSession (seqs : List Nat) : Prog (List UInt32) :=
  if !s.snapOn || seqs = [] then pure (seqs.map UInt32.ofNat)
  else do
    match ← invoke (.getMessageUIDs s.mailbox) with
    | .error _ => pure (seqs.map UInt32.ofNat)
    | .ok live => pure (seqs.filterMap (sessionNumber s live))

def isKnown (uid : UInt32) : Bool := !s.snapOn || (snapSeq s.snap uid).isSome

variable (program : SearchExpr) (uidResults : Bool)

def searchAnswer (e : Evaluated) : Prog (Except SearchFailure Answer) :=
  if uidResults then
    if e.found = [] then pure (.ok ⟨[], e.matched⟩)
    else do
      match ← fetchMessages s.mailbox (joinComma (e.numbers.map fun q => formatUint (UInt32.ofNat q))) with
      | .error e => pure (.error (.mail e))
      | .ok messages => pure (.ok ⟨(messages.map Prod.snd).filter (isKnown s), e.matched⟩)
  else do
    let numbers ← liveSeqsToSession s e.numbers
    pure (.ok ⟨numbers, e.matched⟩)

def allMessages : Bytes := bytes "1:*"

def answered (m : Nat × UInt32) : Option (UInt32 × UInt32) :=
  if s.snapOn then (snapSeq s.snap m.2).map fun seq => (if uidResults then m.2 else seq, m.2)
  else some (if uidResults then m.2 else UInt32.ofNat m.1, m.2)

def renumber (kind : SearchKind) (messages : List (Nat × UInt32)) : List (Nat × UInt32) :=
  match kind with
  | .sort => positions 1 (messages.map Prod.snd)
  | _ => messages

def arrangedAnswer (kind : SearchKind) (uidResults : Bool) (e : Evaluated) :
    Prog (Except SearchFailure Answer) := do
  match ← fetchMessages s.mailbox allMessages with
  | .error e => pure (.error (.mail e))
  | .ok messages =>
    let wanted := (renumber kind messages).filter fun m => e.numbers.contains m.1
    pure (.ok ⟨(order.arrange (wanted.filterMap (answered s uidResults))).map Prod.fst, e.matched⟩)

def withMatches (next : Evaluated → Prog (Except SearchFailure Answer)) :
    Prog (Except SearchFailure Answer) := do
  match ← evalSearch kit s recent program with
  | .error e => pure (.error e)
  | .ok e => next e

def handleSearchWithUIDs : Prog (Except SearchFailure Answer) :=
  withMatches kit s recent program (searchAnswer s uidResults)

def sortCmd : Prog (Except SearchFailure Answer) :=
  withMatches kit s recent program (arrangedAnswer s order .sort uidResults)

def threadCmd : Prog (Except SearchFailure Answer) :=
  withMatches kit s recent program (arrangedAnswer s order .thread uidResults)

def SearchRequest.run (request : SearchRequest) : Prog (Except SearchFailure Answer) :=
  match request.kind with
  | .search => handleSearchWithUIDs kit s recent request.program request.uidResults
  | .sort => sortCmd kit s recent order request.program request.uidResults
  | .thread => threadCmd kit s recent order request.program request.uidResults

end Commands

-- Every number of the answer is that of a message of the snapshot that matches,
-- or its UID.
def Truthful (s : Selected) (uidResults : Bool) (answer : Answer) : Prop :=
  ∀ n ∈ answer.numbers,
    if uidResults = true then n ∈ answer.matched
    else ∃ i uid, s.snap[i]? = some uid ∧ n = UInt32.ofNat (i + 1) ∧ uid ∈ answer.matched

-- The session is the first thread. The others can be anything.
def searchPool (kit : Toolkit) (state : State) (s : Selected) (recent : List UInt32) (order : Arrangement)
    (request : SearchRequest) (others : List (Prog (Except SearchFailure Answer))) :
    Config sig State (Except SearchFailure Answer) :=
  ⟨⟨state, []⟩, request.run kit s recent order :: others⟩

def asGiven : Arrangement := ⟨id, id⟩

def silently (program : Prog Unit) : Prog (Except SearchFailure Answer) := do
  program
  pure (.ok ⟨[], []⟩)

def searchDeletedMark : SearchRequest :=
  ⟨.search, false, .mk { SearchCriteria.everything with marked := fun m => m = .deleted } []⟩

-- The message is found, then another session removes it, and then its number is
-- looked up.
def overtakenSchedule : List (Nat × Choice) :=
  List.replicate 3 (0, demoChoice) ++ List.replicate 5 (1, demoChoice) ++ [(0, demoChoice)]

def finished (cfg : Config sig State (Except SearchFailure Answer)) : Option Answer :=
  match cfg.pool[0]? with
  | some (Program.done (Except.ok answer)) => some answer
  | _ => none

theorem finished_eq_some {cfg : Config sig State (Except SearchFailure Answer)} {answer : Answer} :
    finished cfg = some answer ↔ cfg.pool[0]? = some (.done (.ok answer)) := by
  unfold finished
  constructor
  · intro h
    split at h
    · rename_i hpool
      rw [hpool, Option.some.inj h]
    · cases h
  · intro h
    rw [h]

end UMail.Mailstore
