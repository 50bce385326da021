import UMail.Mailstore.Commands
import UMail.Imap.Literals

namespace UMail.Imap

open Text (isDigit trimSpace)
open UMail.Storage
open UMail.Mailstore (liveSet selectUIDs)

structure Token where
  val : Bytes
  quoted : Bool
  deriving DecidableEq, Repr

-- What SEARCH takes from the Go library: the case tables, the calendar, the
-- mail parser, and the order in which a map is walked for a message. The zero
-- time is 0.
structure Toolkit where
  toUpper : Bytes → Bytes
  toLower : Bytes → Bytes
  equalFold : Bytes → Bytes → Bool
  parseIMAPDate : Bytes → Option Int
  parseMessageDate : Bytes → Option Int
  isZero : Int → Bool
  before : Int → Int → Bool
  equal : Int → Int → Bool
  startOfDay : Int → Int
  startOfUTCDay : Int → Int
  ccHeader : Bytes → Option Bytes
  decodeEncodedWords : Bytes → Bytes
  decodedHeaderText : Bytes → Bytes
  decodedBodyText : Bytes → Bytes
  mapOrder : UInt32 → List (Bytes × Bytes) → List (Bytes × Bytes)
  equalFold_close : ∀ s, equalFold (bytes ")") s = true → s = bytes ")"
  isZero_zero : isZero 0 = true
  mapOrder_perm : ∀ uid entries, (mapOrder uid entries).Perm entries

inductive Mark
  | all | answered | deleted | flagged | new | old | recent | seen
  | unanswered | undeleted | unflagged | unseen | draft | undraft
  deriving DecidableEq, Repr

inductive TextKey
  | fromAddr | toAddr | subject | cc | bcc | body | text
  deriving DecidableEq, Repr

inductive DateKey
  | before | on | since | sentBefore | sentOn | sentSince
  deriving DecidableEq, Repr

inductive SizeKey
  | larger | smaller
  deriving DecidableEq, Repr

inductive SearchKey
  | mark (m : Mark)
  | keyword
  | unkeyword
  | uid
  | text (k : TextKey)
  | header
  | date (k : DateKey)
  | size (k : SizeKey)
  deriving DecidableEq, Repr

def searchKeys : List (Bytes × SearchKey) :=
  [(bytes "FROM", .text .fromAddr), (bytes "TO", .text .toAddr), (bytes "CC", .text .cc),
    (bytes "BCC", .text .bcc), (bytes "SUBJECT", .text .subject), (bytes "BODY", .text .body),
    (bytes "TEXT", .text .text), (bytes "KEYWORD", .keyword), (bytes "UNKEYWORD", .unkeyword),
    (bytes "UID", .uid), (bytes "HEADER", .header), (bytes "BEFORE", .date .before),
    (bytes "ON", .date .on), (bytes "SINCE", .date .since), (bytes "SENTBEFORE", .date .sentBefore),
    (bytes "SENTON", .date .sentOn), (bytes "SENTSINCE", .date .sentSince),
    (bytes "LARGER", .size .larger), (bytes "SMALLER", .size .smaller), (bytes "ALL", .mark .all),
    (bytes "ANSWERED", .mark .answered), (bytes "DELETED", .mark .deleted),
    (bytes "FLAGGED", .mark .flagged), (bytes "NEW", .mark .new), (bytes "OLD", .mark .old),
    (bytes "RECENT", .mark .recent), (bytes "SEEN", .mark .seen),
    (bytes "UNANSWERED", .mark .unanswered), (bytes "UNDELETED", .mark .undeleted),
    (bytes "UNFLAGGED", .mark .unflagged), (bytes "UNSEEN", .mark .unseen),
    (bytes "DRAFT", .mark .draft), (bytes "UNDRAFT", .mark .undraft)]

def SearchKey.arity : SearchKey → Nat
  | .mark _ => 0
  | .header => 2
  | .keyword | .unkeyword | .uid | .text _ | .date _ | .size _ => 1

structure SearchCriteria where
  marked : Mark → Bool
  keyword : List Bytes
  unkeyword : List Bytes
  seqSet : Bytes
  uidSet : Bytes
  text : TextKey → Bytes
  header : List (Bytes × Bytes)
  date : DateKey → Int
  size : SizeKey → Int
  sizeSet : SizeKey → Bool

def SearchCriteria.everything : SearchCriteria where
  marked m := m = .all
  keyword := []
  unkeyword := []
  seqSet := []
  uidSet := []
  text _ := []
  header := []
  date _ := 0
  size _ := 0
  sizeSet _ := false

mutual

-- The plain keys of a list share one set of criteria. Every other key is a term.
inductive SearchExpr
  | mk (flat : SearchCriteria) (terms : List SearchTerm)

inductive SearchTerm
  | not (e : SearchExpr)
  | or (a b : SearchExpr)
  | sub (e : SearchExpr)

end

def maxSearchDepth : Nat := 64

def maxSearchNodes : Nat := 256

inductive ProgramError
  | unknownKey (val : Bytes)
  | missingArgument (val : Bytes)
  | invalidDate (val : Bytes)
  | invalidSize (val : Bytes)
  | unbalancedParenthesis
  | missingKey
  | unexpected (val : Bytes)
  | tooComplex
  | badCharset
  deriving DecidableEq, Repr

-- strconv.ParseInt in base 10 with 64 bits.
def parseInt64 (s : Bytes) : Option Int :=
  let negative := s.head? = some 45
  let digits := if s.head? = some 45 || s.head? = some plus then s.drop 1 else s
  if digits = [] then none
  else match parseDigits 0 digits with
    | none => none
    | some n =>
      if negative then if n ≤ 2 ^ 63 then some (-n) else none
      else if n < 2 ^ 63 then some n else none

def isSetByte (c : UInt8) : Bool := isDigit c || c == colon || c == comma || c == star

def isSequenceSetToken (tok : Bytes) : Bool :=
  tok ≠ [] && tok.all isSetByte && (parseSequenceSet tok).isOk

def Token.isOpen (t : Token) : Bool := !t.quoted && t.val = bytes "("

def Token.isClose (t : Token) : Bool := !t.quoted && t.val = bytes ")"

section Parser

variable (kit : Toolkit)

def Token.isNot (t : Token) : Bool := !t.quoted && kit.equalFold t.val (bytes "NOT")

def Token.isOr (t : Token) : Bool := !t.quoted && kit.equalFold t.val (bytes "OR")

def keyOf (val : Bytes) : Option SearchKey := searchKeys.lookup (kit.toUpper val)

variable (c : SearchCriteria) (toks : List Token)

def SearchCriteria.setArgument (value : Bytes) : SearchKey → SearchCriteria
  | .keyword => { c with keyword := c.keyword ++ [value] }
  | .unkeyword => { c with unkeyword := c.unkeyword ++ [value] }
  | .uid => { c with uidSet := value }
  | .text k => { c with text := Function.update c.text k value }
  | .date k =>
    match kit.parseIMAPDate value with
    | some t => { c with date := Function.update c.date k t }
    | none => c
  | .size k =>
    match parseInt64 value with
    | some n => { c with size := Function.update c.size k n
                         sizeSet := Function.update c.sizeSet k true }
    | none => c
  | .mark _ | .header => c

def putHeader (header : List (Bytes × Bytes)) (name value : Bytes) : List (Bytes × Bytes) :=
  header.filter (·.1 ≠ name) ++ [(name, value)]

def oneArgument (key : SearchKey) : List Bytes → SearchCriteria × Nat
  | [] => (c, 0)
  | value :: _ => (c.setArgument kit value key, 1)

def twoArguments : List Bytes → SearchCriteria × Nat
  | name :: value :: _ => ({ c with header := putHeader c.header name value }, 2)
  | _ => (c, 0)

def applyKey (name : Bytes) (args : List Bytes) : Option SearchKey → SearchCriteria × Nat
  | none =>
    let arg := kit.toUpper name
    (if isSequenceSetToken arg then { c with seqSet := arg } else c, 0)
  | some (.mark m) => ({ c with marked := Function.update c.marked m true }, 0)
  | some .header => twoArguments c args
  | some key => oneArgument kit c key args

def parseSearchKey : List Bytes → SearchCriteria × Nat
  | [] => (c, 0)
  | name :: args => applyKey kit c name args (keyOf kit name)

def checkSearchKey : List Bytes → Except ProgramError Unit
  | [] => .ok ()
  | name :: args =>
    match keyOf kit name with
    | none => if isSequenceSetToken name then .ok () else .error (.unknownKey name)
    | some key =>
      if args.length < key.arity then .error (.missingArgument name)
      else match key with
        | .date _ =>
          if (kit.parseIMAPDate (args.headD [])).isSome then .ok ()
          else .error (.invalidDate (args.headD []))
        | .size _ =>
          if (parseInt64 (args.headD [])).any (0 ≤ ·) then .ok ()
          else .error (.invalidSize (args.headD []))
        | _ => .ok ()

-- The part of the criteria that a key writes, when it would overwrite what an
-- earlier key has written there.
inductive Slot
  | header (name : Bytes)
  | key (key : SearchKey)
  | seqSet
  deriving DecidableEq, Repr

def slotOf (args : List Bytes) : Option SearchKey → Option Slot
  | none => some .seqSet
  | some .header => some (.header (kit.toLower (args.headD [])))
  | some (.mark _) | some .keyword | some .unkeyword => none
  | some key => some (.key key)

def searchKeyID : List Bytes → Option Slot
  | [] => none
  | name :: args => slotOf kit args (keyOf kit name)

def plainKeyArgs : List Bytes :=
  ((toks.takeWhile fun t => !t.isOpen && !t.isClose).take 3).map Token.val

abbrev Parsed := Except ProgramError (SearchExpr × List Token × Nat)

-- The loop of parseSearchSeq. Every round takes a token, so the number of
-- tokens bounds the rounds.
def seqLoop (one : Nat → List Token → Parsed) (inGroup : Bool) :
    Nat → Nat → List Slot → SearchCriteria → List SearchTerm → List Token → Parsed
  | _, nodes, _, flat, terms, [] =>
    if inGroup then .error .unbalancedParenthesis else .ok (.mk flat terms, [], nodes)
  | 0, _, _, _, _, _ :: _ => .error .tooComplex
  | fuel + 1, nodes, used, flat, terms, t :: rest =>
    if t.isClose then
      if inGroup then .ok (.mk flat terms, rest, nodes) else .error .unbalancedParenthesis
    else if t.isOpen || t.isNot kit || t.isOr kit then do
      let (sub, next, nodes) ← one nodes (t :: rest)
      seqLoop one inGroup fuel nodes used flat (terms ++ [.sub sub]) next
    else do
      let vals := plainKeyArgs (t :: rest)
      checkSearchKey kit vals
      let id := searchKeyID kit vals
      if id.any used.contains then
        let (x, n) := parseSearchKey kit .everything vals
        seqLoop one inGroup fuel nodes used flat (terms ++ [.sub (.mk x [])])
          ((t :: rest).drop (n + 1))
      else
        let (flat, n) := parseSearchKey kit flat vals
        seqLoop one inGroup fuel nodes (id.toList ++ used) flat terms ((t :: rest).drop (n + 1))

mutual

-- The first number is the depth that is left.
def parseSearchSeq : Nat → Bool → Nat → List Token → Parsed
  | 0, _, _, _ => .error .tooComplex
  | left + 1, inGroup, nodes, toks =>
    if nodes + 1 > maxSearchNodes then .error .tooComplex
    else seqLoop kit (parseSearchOne left) inGroup toks.length (nodes + 1) [] .everything [] toks

def parseSearchOne : Nat → Nat → List Token → Parsed
  | 0, _, _ => .error .tooComplex
  | left + 1, nodes, toks =>
    if nodes + 1 > maxSearchNodes then .error .tooComplex
    else match toks with
      | [] => .error .missingKey
      | t :: rest =>
        if t.isOpen then parseSearchSeq left true (nodes + 1) rest
        else if t.isNot kit then do
          let (x, next, nodes) ← parseSearchOne left (nodes + 1) rest
          .ok (.mk .everything [.not x], next, nodes)
        else if t.isOr kit then do
          let (a, next, nodes) ← parseSearchOne left (nodes + 1) rest
          let (b, next, nodes) ← parseSearchOne left nodes next
          .ok (.mk .everything [.or a b], next, nodes)
        else if t.isClose then .error .missingKey
        else do
          let vals := plainKeyArgs (t :: rest)
          checkSearchKey kit vals
          let (flat, n) := parseSearchKey kit .everything vals
          .ok (.mk flat [], (t :: rest).drop (n + 1), nodes + 1)

end

def searchCharsetSupported (charset : Bytes) : Bool :=
  kit.toUpper charset = bytes "UTF-8" || kit.toUpper charset = bytes "US-ASCII"

def programKeys : Except ProgramError (List Token) :=
  match toks with
  | t :: charset :: rest =>
    if !t.quoted && kit.equalFold t.val (bytes "CHARSET") then
      if searchCharsetSupported kit charset.val then .ok rest else .error .badCharset
    else .ok toks
  | _ => .ok toks

def parseSearchProgram : Except ProgramError SearchExpr := do
  let toks ← programKeys kit toks
  let (e, next, _) ← parseSearchSeq kit maxSearchDepth false 0 toks
  match next with
  | [] => .ok e
  | t :: _ => .error (.unexpected t.val)

end Parser

-- strings.Index.
def indexOf (sub : Bytes) : Bytes → Option Nat
  | [] => if sub = [] then some 0 else none
  | c :: s => if sub.isPrefixOf (c :: s) then some 0 else (indexOf sub s).map (· + 1)

def contains (s sub : Bytes) : Bool := (indexOf sub s).isSome

inductive SearchError
  | badSet (e : SeqError)
  | sliceOutOfRange
  deriving DecidableEq, Repr

-- A mailbox that nobody changes, as the mailstore reads it for a session, and
-- what the session knows of it.
structure SearchView where
  uids : List UInt32
  metadata : UInt32 → Option MessageMetadata
  readMessage : Bytes → Option Bytes
  recentUIDs : List UInt32
  snap : List UInt32
  snapOn : Bool

def SearchView.maxUID (view : SearchView) : UInt32 :=
  view.uids.foldl (fun hi uid => if uid > hi then uid else hi) 0

section Matching

variable (kit : Toolkit)

def Toolkit.hasFlag (flags : List Bytes) (flag : Bytes) : Bool :=
  flags.any fun f => kit.toUpper f == kit.toUpper flag

def headerContains (value key : Bytes) : Bool :=
  contains (kit.toLower value) (kit.toLower key) ||
    (contains value (bytes "=?") &&
      contains (kit.toLower (kit.decodeEncodedWords value)) (kit.toLower key))

variable (recent : List UInt32) (metadata : MessageMetadata)

def markHolds : Mark → Bool
  | .all => true
  | .answered => kit.hasFlag metadata.flags (bytes "\\Answered")
  | .deleted => kit.hasFlag metadata.flags (bytes "\\Deleted")
  | .flagged => kit.hasFlag metadata.flags (bytes "\\Flagged")
  | .seen => kit.hasFlag metadata.flags (bytes "\\Seen")
  | .unanswered => !kit.hasFlag metadata.flags (bytes "\\Answered")
  | .undeleted => !kit.hasFlag metadata.flags (bytes "\\Deleted")
  | .unflagged => !kit.hasFlag metadata.flags (bytes "\\Flagged")
  | .unseen => !kit.hasFlag metadata.flags (bytes "\\Seen")
  | .new => isRecent && !kit.hasFlag metadata.flags (bytes "\\Seen")
  | .old => !isRecent
  | .recent => isRecent
  | .draft => kit.hasFlag metadata.flags (bytes "\\Draft")
  | .undraft => !kit.hasFlag metadata.flags (bytes "\\Draft")
where
  isRecent : Bool := kit.hasFlag metadata.flags (bytes "\\Recent") || recent.contains metadata.uid

def marks : List Mark :=
  [.answered, .deleted, .flagged, .seen, .unanswered, .undeleted, .unflagged, .unseen, .new, .old,
    .recent, .draft, .undraft]

def sizeHolds (size : Int) : SizeKey → Bool
  | .larger => metadata.size > size
  | .smaller => metadata.size < size

def dateHolds (t : Int) : DateKey → Bool
  | .before => kit.before metadata.internalDate t
  | .on => kit.equal (kit.startOfDay metadata.internalDate) (kit.startOfDay t)
  | .since => !kit.before metadata.internalDate t
  | .sentBefore => sent fun day => kit.before day (kit.startOfUTCDay t)
  | .sentOn => sent fun day => kit.equal day (kit.startOfUTCDay t)
  | .sentSince => sent fun day => !kit.before day (kit.startOfUTCDay t)
where
  sent (test : Int → Bool) : Bool :=
    (kit.parseMessageDate metadata.date).any fun date => test (kit.startOfUTCDay date)

def dates : List DateKey := [.before, .on, .since, .sentBefore, .sentOn, .sentSince]

def addressHolds (value : Bytes) : TextKey → Bool
  | .fromAddr => headerContains kit metadata.fromAddr value
  | .toAddr => headerContains kit metadata.toAddr value
  | .subject => headerContains kit metadata.subject value
  | .cc | .bcc | .body | .text => true

def bodyOf (msgStr : Bytes) : Bytes :=
  msgStr.drop (((indexOf (crlf ++ crlf) msgStr).or (indexOf [10, 10] msgStr)).getD 0)

-- The keys that look at the message file. BCC never finds anything.
def contentHolds (msgData value : Bytes) : TextKey → Bool
  | .cc => (kit.ccHeader msgData).any fun cc => headerContains kit cc value
  | .bcc => false
  | .body =>
    contains (bodyOf (kit.toLower msgData)) (kit.toLower value) ||
      contains (kit.toLower (kit.decodedBodyText msgData)) (kit.toLower value)
  | .text =>
    contains (kit.toLower msgData) (kit.toLower value) ||
      contains (kit.toLower (kit.decodedHeaderText msgData ++ [10] ++ kit.decodedBodyText msgData))
        (kit.toLower value)
  | .fromAddr | .toAddr | .subject => true

-- The end of the line is looked for behind the name. Without one the length of
-- the whole message is taken for it, and the slice is out of range.
def headerHolds (msgData : Bytes) (entry : Bytes × Bytes) : Except SearchError Bool :=
  let msgStr := kit.toLower msgData
  let headerLine := kit.toLower entry.1 ++ [colon]
  match ((indexOf (crlf ++ headerLine) msgStr).or (indexOf (10 :: headerLine) msgStr)).or
    (indexOf headerLine msgStr) with
  | none => .ok false
  | some headerIdx =>
    let valueStart := headerIdx + headerLine.length
    let rest := msgStr.drop valueStart
    let lineEnd := ((indexOf crlf rest).or (indexOf [10] rest)).getD msgStr.length
    if valueStart + lineEnd > msgStr.length then .error .sliceOutOfRange
    else
      let headerVal := trimSpace (rest.take lineEnd)
      .ok (contains headerVal (kit.toLower entry.2) ||
        headerContains kit (kit.decodeEncodedWords headerVal) entry.2)

def headersHold (msgData : Bytes) : List (Bytes × Bytes) → Except SearchError Bool
  | [] => .ok true
  | entry :: rest => do
    if ← headerHolds kit msgData entry then headersHold msgData rest else .ok false

def metadataMatches (c : SearchCriteria) : Bool :=
  (marks.all fun m => !c.marked m || markHolds kit recent metadata m) &&
  (c.keyword.all fun k => kit.hasFlag metadata.flags k) &&
  (c.unkeyword.all fun k => !kit.hasFlag metadata.flags k) &&
  ([.fromAddr, .toAddr, .subject].all fun k =>
    c.text k = [] || addressHolds kit metadata (c.text k) k) &&
  ([.larger, .smaller].all fun k =>
    !(c.size k > 0 || c.sizeSet k) || sizeHolds metadata (c.size k) k) &&
  (dates.all fun k => kit.isZero (c.date k) || dateHolds kit metadata (c.date k) k)

def contentKeys : List TextKey := [.cc, .bcc, .body, .text]

def contentMatches (msgData : Bytes) (c : SearchCriteria) : Bool :=
  contentKeys.all fun k => c.text k = [] || contentHolds kit msgData (c.text k) k

def matchesCriteria (msgData : Option Bytes) (c : SearchCriteria) : Except SearchError Bool :=
  if !metadataMatches kit recent metadata c then .ok false
  else match msgData with
    | none => .ok true
    | some data =>
      if !contentMatches kit data c then .ok false
      else headersHold kit data (kit.mapOrder metadata.uid c.header)

def needsData (c : SearchCriteria) : Bool :=
  contentKeys.any (fun k => c.text k ≠ []) || c.header ≠ []

variable (view : SearchView)

-- The file is read only for the keys that look at it, and a message whose file
-- cannot be read does not match.
def matchLoaded (c : SearchCriteria) (metadata : MessageMetadata) : Except SearchError Bool :=
  if needsData c then
    match view.readMessage metadata.messageID with
    | none => .ok false
    | some data => matchesCriteria kit view.recentUIDs metadata (some data) c
  else matchesCriteria kit view.recentUIDs metadata none c

def searchMessage (c : SearchCriteria) (seqRanges uidRanges : List SeqRange) (seqNum : Nat)
    (uid : UInt32) : Except SearchError Bool :=
  if c.seqSet ≠ [] &&
      !inRanges seqRanges (UInt32.ofNat seqNum) (UInt32.ofNat view.uids.length) then .ok false
  else if c.uidSet ≠ [] && !inRanges uidRanges uid view.maxUID then .ok false
  else match view.metadata uid with
    | none => .ok false
    | some metadata => matchLoaded kit view c metadata

def searchLoop (c : SearchCriteria) (seqRanges uidRanges : List SeqRange) :
    Nat → List UInt32 → Except SearchError (List Nat)
  | _, [] => .ok []
  | seqNum, uid :: rest => do
    let found ← searchMessage kit view c seqRanges uidRanges seqNum uid
    let results ← searchLoop c seqRanges uidRanges (seqNum + 1) rest
    .ok (if found then seqNum :: results else results)

def parseSet (set : Bytes) : Except SearchError (List SeqRange) :=
  (parseSequenceSet set).mapError .badSet

def searchMessages (c : SearchCriteria) : Except SearchError (List Nat) := do
  let seqRanges ← parseSet c.seqSet
  let uidRanges ← parseSet c.uidSet
  searchLoop kit view c seqRanges uidRanges 1 view.uids

-- The criteria in the numbering of the mailbox, or none when the set names no
-- message that is still there.
def liveCriteria (c : SearchCriteria) : Except SearchError (Option SearchCriteria) :=
  if view.snapOn && c.seqSet ≠ [] then
    match parseSet c.seqSet with
    | .error e => .error e
    | .ok [] => .ok none
    | .ok ranges =>
      let live := liveSet view.uids (selectUIDs ranges view.snap)
      .ok (if live = [] then none else some { c with seqSet := live })
  else .ok (some c)

def evalFlat (c : SearchCriteria) : Except SearchError (List Nat) := do
  match ← liveCriteria view c with
  | none => .ok []
  | some c => searchMessages kit view c

def seqFilter (nums set : List Nat) (keep : Bool) : List Nat :=
  nums.filter fun n => set.contains n == keep

mutual

def evalSearch : SearchExpr → Except SearchError (List Nat)
  | .mk flat terms => do
    let base ← evalFlat kit view flat
    evalTerms terms base

def evalTerms : List SearchTerm → List Nat → Except SearchError (List Nat)
  | [], base => .ok base
  | t :: terms, base =>
    if base = [] then .ok base
    else do
      let base ← evalTerm t base
      evalTerms terms base

def evalTerm : SearchTerm → List Nat → Except SearchError (List Nat)
  | .not e, base => do
    let x ← evalSearch e
    .ok (seqFilter base x false)
  | .sub e, base => do
    let x ← evalSearch e
    .ok (seqFilter base x true)
  | .or a b, base => do
    let x ← evalSearch a
    let y ← evalSearch b
    .ok (seqFilter base (x ++ y) true)

end

end Matching

end UMail.Imap
