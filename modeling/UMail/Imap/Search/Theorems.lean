import UMail.Imap.Search.Merge
import UMail.Mailstore.Commands.Theorems

namespace UMail.Imap

open Fallible (ok_of_bind)
open UMail.Storage

variable {kit : Toolkit} {view : SearchView}

theorem found_of_merges {c key both : SearchCriteria} (h : Merges kit c key both) (n : Nat) :
    found (matchesAt kit view both n) =
      (found (matchesAt kit view c n) && found (matchesAt kit view key n)) := by
  rw [Bool.eq_iff_iff, Bool.and_eq_true]
  simp only [found_matchesAt, admits_iff_fields]
  constructor
  · rintro ⟨uid, metadata, huid, hmetadata, hboth⟩
    exact ⟨⟨uid, metadata, huid, hmetadata, fun f => ((h view n uid metadata f).mp (hboth f)).1⟩,
      ⟨uid, metadata, huid, hmetadata, fun f => ((h view n uid metadata f).mp (hboth f)).2⟩⟩
  · rintro ⟨⟨uid, metadata, huid, hmetadata, hc⟩, ⟨uid', metadata', huid', hmetadata', hkey⟩⟩
    obtain rfl : uid' = uid := Option.some.inj (huid'.symm.trans huid)
    obtain rfl : metadata' = metadata := Option.some.inj (hmetadata'.symm.trans hmetadata)
    exact ⟨uid', metadata', huid, hmetadata, fun f => (h view n uid' metadata' f).mpr ⟨hc f, hkey f⟩⟩

section Safety

variable (kit view)

structure Safe (c : SearchCriteria) : Prop where
  seqSet : (liveRanges view c.seqSet).isOk
  uidSet : (parseSet c.uidSet).isOk
  header : ∀ entry ∈ c.header, ∀ uid ∈ view.uids, ∀ metadata, view.metadata uid = some metadata →
    ∀ data, view.readMessage metadata.messageID = some data → (headerHolds kit data entry).isOk

variable {kit view}
  {c : SearchCriteria} {metadata : MessageMetadata} {uid : UInt32} {vals : List Bytes}
  {entry : Bytes × Bytes}

theorem Safe.joined {key both : SearchCriteria} {used : List Slot}
    (h : Joined kit c key both used) (hc : Safe kit view c) (hkey : Safe kit view key) :
    Safe kit view both := by
  refine ⟨?_, ?_, fun entry hentry => ?_⟩
  · rcases h.seqSet with he | he <;> rw [he]
    · exact hc.seqSet
    · exact hkey.seqSet
  · rcases h.uidSet with he | he <;> rw [he]
    · exact hc.uidSet
    · exact hkey.uidSet
  · rcases h.header entry hentry with hentry | hentry
    · exact hc.header entry hentry
    · exact hkey.header entry hentry

theorem matchesCriteria_isOk {msgData : Option Bytes}
    (h : ∀ data, msgData = some data → ∀ entry ∈ c.header, (headerHolds kit data entry).isOk) :
    (matchesCriteria kit view.recentUIDs metadata msgData c).isOk := by
  unfold matchesCriteria
  split_ifs
  · rfl
  rcases msgData with _ | data
  · rfl
  dsimp only
  split_ifs
  · rfl
  · refine headersHold_isOk fun entry hentry => h data rfl entry ?_
    exact (kit.mapOrder_perm metadata.uid c.header).mem_iff.mp hentry

theorem searchMessage_isOk (h : Safe kit view c) (seqRanges uidRanges : List SeqRange)
    (n : Nat) (huid : uid ∈ view.uids) :
    (searchMessage kit view c seqRanges uidRanges n uid).isOk := by
  unfold searchMessage
  split_ifs
  · rfl
  · rfl
  · cases hmetadata : view.metadata uid with
    | none => rfl
    | some metadata =>
      dsimp only
      unfold matchLoaded
      split_ifs
      · cases hdata : view.readMessage metadata.messageID with
        | none => rfl
        | some data =>
          refine matchesCriteria_isOk fun data' hsome entry hentry => ?_
          cases hsome
          exact h.header entry hentry uid huid metadata hmetadata data hdata
      · exact matchesCriteria_isOk fun data hsome => by cases hsome

theorem answered_of_safe (h : Safe kit view c) : Answered kit view c := by
  intro n _
  rw [matchesAt_eq]
  refine isOk_bind h.seqSet fun ranges => ?_
  rcases ranges with _ | seqRanges
  · rfl
  refine isOk_bind h.uidSet fun uidRanges => ?_
  cases huid : view.uids[n - 1]? with
  | none => rfl
  | some uid => exact searchMessage_isOk h seqRanges uidRanges n (List.mem_of_getElem? huid)

theorem indexOf_le {sub s : Bytes} {i : Nat} (h : indexOf sub s = some i) :
    sub <+: s.drop i ∧ i ≤ s.length := by
  induction s generalizing i with
  | nil =>
    rw [indexOf] at h
    split_ifs at h with hsub
    cases h
    exact ⟨by rw [hsub]; exact List.nil_prefix, Nat.le_refl _⟩
  | cons c s ih =>
    rw [indexOf] at h
    split_ifs at h with hsub
    · cases h
      exact ⟨List.isPrefixOf_iff_prefix.mp hsub, Nat.zero_le _⟩
    · obtain ⟨j, hj, rfl⟩ := Option.map_eq_some_iff.mp h
      exact ⟨(ih hj).1, Nat.succ_le_succ (ih hj).2⟩

theorem indexOf_isSome {sub s : Bytes} (h : sub <:+: s) : (indexOf sub s).isSome := by
  induction s with
  | nil => simp [indexOf, List.infix_nil.mp h]
  | cons c s ih =>
    rw [indexOf]
    split_ifs with hsub
    · rfl
    · rw [Option.isSome_map]
      rcases List.infix_cons_iff.mp h with h | h
      · exact absurd (List.isPrefixOf_iff_prefix.mpr h) hsub
      · exact ih h

variable (kit) in

-- A field with the name, which is looked for as text, comes to an end.
def Ended (name data : Bytes) : Prop :=
  contains (kit.toLower data) (kit.toLower name ++ [colon]) = true →
    (kit.toLower data).getLast? = some 10

-- Behind the name, which cannot be the end of such a text, a line feed is left.
theorem mem_after_name {text front name : Bytes} {idx : Nat} (hlast : text.getLast? = some 10)
    (hat : front ++ (name ++ [colon]) <+: text.drop idx) :
    10 ∈ text.drop (idx + (name ++ [colon]).length) := by
  obtain ⟨tail, htail⟩ := hat
  have hten : 10 ∈ tail := by
    rw [← List.take_append_drop idx text, ← htail, ← List.append_assoc] at hlast
    cases tail using List.reverseRecOn with
    | nil => simp [colon] at hlast
    | append_singleton tail c =>
      rw [← List.append_assoc, List.getLast?_concat] at hlast
      cases hlast
      simp
  rw [List.append_assoc] at htail
  generalize name ++ [colon] = line at htail ⊢
  rw [← List.drop_drop, ← htail, ← List.append_assoc,
    List.drop_append_of_le_length (by rw [List.length_append]; omega)]
  exact List.mem_append_right _ hten

theorem exists_lineEnd {rest : Bytes} (h : 10 ∈ rest) :
    ∃ lineEnd, (indexOf crlf rest).or (indexOf [10] rest) = some lineEnd ∧ lineEnd ≤ rest.length := by
  obtain ⟨before, after, hsplit⟩ := List.append_of_mem h
  have hinfix : [10] <:+: rest := ⟨before, after, by rw [hsplit]; simp⟩
  have hend : ((indexOf crlf rest).or (indexOf [10] rest)).isSome := by
    rw [Option.isSome_or, indexOf_isSome hinfix, Bool.or_true]
  obtain ⟨lineEnd, hlineEnd⟩ := Option.isSome_iff_exists.mp hend
  refine ⟨lineEnd, hlineEnd, ?_⟩
  rcases Option.or_eq_some_iff.mp hlineEnd with hat | ⟨-, hat⟩
  · exact (indexOf_le hat).2
  · exact (indexOf_le hat).2

theorem headerHolds_isOk {data : Bytes} (h : Ended kit entry.1 data) :
    (headerHolds kit data entry).isOk := by
  unfold headerHolds
  dsimp only
  split
  · rfl
  rename_i headerIdx hidx
  rw [Ended] at h
  generalize kit.toLower data = msgStr at h hidx ⊢
  obtain ⟨front, hfront⟩ : ∃ front, front ++ (kit.toLower entry.1 ++ [colon]) <+:
      msgStr.drop headerIdx := by
    rw [Option.or_eq_some_iff, Option.or_eq_some_iff] at hidx
    obtain (hidx | ⟨-, hidx⟩) | ⟨-, hidx⟩ := hidx
    · exact ⟨crlf, (indexOf_le hidx).1⟩
    · exact ⟨[10], (indexOf_le hidx).1⟩
    · exact ⟨[], (indexOf_le hidx).1⟩
  have hlast := h (indexOf_isSome (((List.suffix_append ..).isInfix.trans hfront.isInfix).trans
    (List.drop_suffix ..).isInfix))
  have hrest := mem_after_name hlast hfront
  obtain ⟨lineEnd, hlineEnd, hle⟩ := exists_lineEnd hrest
  rw [hlineEnd, Option.getD_some, if_neg]
  · rfl
  have hlength := List.length_pos_of_mem hrest
  rw [List.length_drop] at hlength hle
  omega

variable (kit view) in

-- What a search for a single key needs to be answered.
structure Answerable (vals : List Bytes) : Prop where
  length : view.uids.length < 2 ^ 32
  uidSet : (parseSet (keyCriteria kit vals).uidSet).isOk
  header : ∀ entry ∈ (keyCriteria kit vals).header, ∀ uid ∈ view.uids, ∀ metadata,
    view.metadata uid = some metadata → ∀ data, view.readMessage metadata.messageID = some data →
      Ended kit entry.1 data

theorem liveRanges_isOk (hlength : view.uids.length < 2 ^ 32) {set : Bytes} (h : (parseSet set).isOk) :
    (liveRanges view set).isOk := by
  have hmap : ∀ set, (parseSet set).isOk → ((parseSet set).map some).isOk := by
    intro set hset
    cases hparse : parseSet set with
    | error e =>
      rw [hparse] at hset
      cases hset
    | ok ranges => rfl
  unfold liveRanges
  split_ifs
  · cases hparse : parseSet set with
    | error e =>
      rw [hparse] at h
      cases h
    | ok ranges =>
      rcases ranges with _ | ⟨range, ranges⟩
      · rfl
      dsimp only
      split_ifs
      · rfl
      refine hmap _ ?_
      rw [parseSet, Mailstore.liveSet, parseSequenceSet_joinComma]
      · rfl
      · intro n hn hzero
        obtain ⟨uid, -, hseq⟩ := List.mem_filterMap.mp hn
        obtain ⟨i, hi, rfl⟩ := Mailstore.getElem?_of_liveSeq hseq
        have hlt := (List.getElem?_eq_some_iff.mp hi).1
        have htoNat := congrArg UInt32.toNat hzero
        rw [UInt32.toNat_ofNat_of_lt' (by simp [UInt32.size]; omega)] at htoNat
        simp at htoNat
  · exact hmap set h

variable (kit) in

theorem keyCriteria_seqSet (vals : List Bytes) : (parseSet (keyCriteria kit vals).seqSet).isOk := by
  have hnil : ∀ {set : Bytes}, set = [] → (parseSet set).isOk := by
    rintro _ rfl
    rfl
  have hone : ∀ key args, (oneArgument kit .everything key args).1.seqSet = [] := by
    rintro key (_ | ⟨value, rest⟩)
    · rfl
    · exact setArgument_seqSet _ value key
  rcases vals with _ | ⟨name, args⟩
  · rfl
  rw [keyCriteria, parseSearchKey]
  cases keyOf kit name with
  | none =>
    simp only [applyKey]
    split_ifs with hset
    · rw [isSequenceSetToken, Bool.and_eq_true] at hset
      dsimp only
      rw [parseSet]
      cases hparse : parseSequenceSet (kit.toUpper name) with
      | error e =>
        rw [hparse] at hset
        cases hset.2
      | ok ranges => rfl
    · rfl
  | some key =>
    cases key with
    | mark m => rfl
    | header =>
      rcases args with _ | ⟨name, _ | ⟨value, rest⟩⟩
      · rfl
      · rfl
      · rfl
    | keyword | unkeyword | uid | text | date | size => exact hnil (hone _ args)

theorem safe_of_answerable (h : Answerable kit view vals) : Safe kit view (keyCriteria kit vals) :=
  ⟨liveRanges_isOk h.length (keyCriteria_seqSet kit vals), h.uidSet,
    fun entry hentry uid huid metadata hmetadata data hdata =>
      headerHolds_isOk (h.header entry hentry uid huid metadata hmetadata data hdata)⟩

end Safety

theorem found_everything (n : Nat) : found (matchesAt kit view .everything n) = view.readable n := by
  rw [Bool.eq_iff_iff, found_matchesAt]
  simp only [admits_iff_fields, SearchView.readable]
  constructor
  · rintro ⟨uid, metadata, huid, hmetadata, _⟩
    simp [huid, hmetadata]
  · intro h
    obtain ⟨metadata, h⟩ := Option.isSome_iff_exists.mp h
    obtain ⟨uid, huid, hmetadata⟩ := Option.bind_eq_some_iff.mp h
    exact ⟨uid, metadata, huid, hmetadata, everything_admits⟩

section Parsing

variable (kit)

structure Denotes (e : SearchExpr) (keys : List Key) : Prop where
  holds : ∀ view n, e.holds kit view n = (view.readable n && allHold kit view n keys)
  answered : ∀ view, (∀ vals ∈ plainKeys keys, Answerable kit view vals) →
    e.Answered kit view

structure Built (flat : SearchCriteria) (terms : List SearchTerm) (used : List Slot)
    (keys : List Key) : Prop where
  covers : Covers kit flat used
  holds : ∀ view n, (found (matchesAt kit view flat n) && termsHold kit view n terms) =
    (view.readable n && allHold kit view n keys)
  safe : ∀ view, (∀ vals ∈ plainKeys keys, Answerable kit view vals) →
    Safe kit view flat ∧ TermsAnswered kit view terms

variable {kit}

variable {flat : SearchCriteria} {terms : List SearchTerm} {used : List Slot} {keys : List Key}
  {name : Bytes} {args : List Bytes} {rest : List Token} {e x : SearchExpr} {key : Key}

theorem Built.denotes (h : Built kit flat terms used keys) : Denotes kit (.mk flat terms) keys := by
  refine ⟨fun view n => ?_, fun view hkeys => ?_⟩
  · rw [SearchExpr.holds]
    exact h.holds view n
  · obtain ⟨hflat, hterms⟩ := h.safe view hkeys
    exact ⟨answered_of_safe hflat, hterms⟩

theorem safe_everything (view : SearchView) : Safe kit view .everything := by
  refine ⟨?_, ?_, fun entry hentry => absurd hentry List.not_mem_nil⟩
  · rw [show SearchCriteria.everything.seqSet = [] from rfl, liveRanges_nil]
    rfl
  · rw [show SearchCriteria.everything.uidSet = [] from rfl]
    rfl

theorem built_nil : Built kit .everything [] [] [] :=
  ⟨covers_everything, fun view n => by simp [found_everything, termsHold, allHold],
    fun view _ => ⟨safe_everything view, trivial⟩⟩

theorem allHold_append (view : SearchView) (n : Nat) (keys keys' : List Key) :
    allHold kit view n (keys ++ keys') = (allHold kit view n keys && allHold kit view n keys') := by
  induction keys with
  | nil => simp [allHold]
  | cons key keys ih => simp [allHold, ih, Bool.and_assoc]

theorem termsHold_append (view : SearchView) (n : Nat) (terms terms' : List SearchTerm) :
    termsHold kit view n (terms ++ terms') =
      (termsHold kit view n terms && termsHold kit view n terms') := by
  induction terms with
  | nil => simp [termsHold]
  | cons t terms ih => simp [termsHold, ih, Bool.and_assoc]

theorem termsAnswered_append {terms' : List SearchTerm} :
    TermsAnswered kit view (terms ++ terms') ↔
      TermsAnswered kit view terms ∧ TermsAnswered kit view terms' := by
  induction terms with
  | nil => simp [TermsAnswered]
  | cons t terms ih => simp [TermsAnswered, ih, and_assoc]

theorem plainKeys_append (keys keys' : List Key) :
    plainKeys (keys ++ keys') = plainKeys keys ++ plainKeys keys' := by
  induction keys with
  | nil => simp [plainKeys]
  | cons key keys ih => simp [plainKeys, ih]

theorem Built.sub (h : Built kit flat terms used keys)
    (hx : Denotes kit x [key]) : Built kit flat (terms ++ [.sub x]) used (keys ++ [key]) := by
  refine ⟨h.covers, fun view n => ?_, fun view hkeys => ?_⟩
  · rw [termsHold_append, allHold_append, ← Bool.and_assoc, h.holds]
    simp only [termsHold, SearchTerm.holds, hx.holds]
    cases view.readable n <;> simp
  · rw [plainKeys_append] at hkeys
    obtain ⟨hflat, hterms⟩ := h.safe view fun vals hvals => hkeys vals (List.mem_append_left _ hvals)
    refine ⟨hflat, termsAnswered_append.mpr ⟨hterms, ?_, trivial⟩⟩
    exact hx.answered view fun vals hvals => hkeys vals (List.mem_append_right _ hvals)

theorem Built.plain (h : Built kit flat terms used keys) {vals : List Bytes}
    (hfree : (searchKeyID kit vals).any used.contains = false) :
    Built kit (parseSearchKey kit flat vals).1 terms ((searchKeyID kit vals).toList ++ used)
      (keys ++ [.plain vals]) := by
  have hjoined := joined_parseSearchKey h.covers hfree
  refine ⟨hjoined.covers, fun view n => ?_, fun view hkeys => ?_⟩
  · rw [found_of_merges hjoined.merges, allHold_append, Bool.and_right_comm, h.holds, Bool.and_assoc]
    simp only [allHold, Key.holds, Bool.and_true]
  · rw [plainKeys_append] at hkeys
    obtain ⟨hflat, hterms⟩ := h.safe view fun vals hvals => hkeys vals (List.mem_append_left _ hvals)
    refine ⟨Safe.joined hjoined hflat (safe_of_answerable ?_), hterms⟩
    exact hkeys vals (List.mem_append_right _ (by simp [plainKeys, Key.plains]))

theorem built_plain (vals : List Bytes) : Denotes kit (.mk (keyCriteria kit vals) []) [.plain vals] :=
  (built_nil.plain (by cases searchKeyID kit vals <;> rfl)).denotes

theorem arityOf_of_checkSearchKey (h : checkSearchKey kit (name :: args) = .ok ()) :
    ∃ arity, arityOf kit name = some arity ∧ arity ≤ args.length := by
  rw [checkSearchKey] at h
  rw [arityOf]
  cases hkey : keyOf kit name with
  | none =>
    rw [hkey] at h
    dsimp only at h ⊢
    split_ifs at h with hset
    exact ⟨0, if_pos hset, Nat.zero_le _⟩
  | some key =>
    rw [hkey] at h
    refine ⟨key.arity, rfl, Nat.le_of_not_lt fun hlength => ?_⟩
    dsimp only at h
    rw [if_pos hlength] at h
    cases h

theorem searchKey_take {arity : Nat} (h : arityOf kit name = some arity) (hle : arity ≤ args.length) :
    searchKeyID kit (name :: args) = searchKeyID kit (name :: args.take arity) ∧
      ∀ c, parseSearchKey kit c (name :: args) =
        ((parseSearchKey kit c (name :: args.take arity)).1, arity) := by
  rw [arityOf] at h
  simp only [parseSearchKey, searchKeyID]
  cases hkey : keyOf kit name with
  | none =>
    rw [hkey] at h
    split_ifs at h
    cases h
    exact ⟨rfl, fun _ => rfl⟩
  | some key =>
    rw [hkey] at h
    cases h
    cases key
    case mark => exact ⟨rfl, fun _ => rfl⟩
    case header =>
      rcases args with _ | ⟨name, _ | ⟨value, rest⟩⟩
      · exact absurd hle (by decide)
      · exact absurd hle (by simp [SearchKey.arity])
      · exact ⟨rfl, fun _ => rfl⟩
    all_goals
      obtain ⟨value, rest, rfl⟩ := List.exists_cons_of_length_pos hle
      exact ⟨rfl, fun _ => rfl⟩

-- The tokens of a plain key at the front: it takes as many of them as it has
-- arguments, whatever follows.
theorem reads_plain {t : Token} (hopen : t.isOpen = false) (hclose : t.isClose = false)
    (hnot : t.isNot kit = false) (hor : t.isOr kit = false)
    (hcheck : checkSearchKey kit (plainKeyArgs (t :: rest)) = .ok ()) :
    ∃ args tail, rest = args ++ tail ∧ Reads kit (t :: args) (.plain (t.val :: args.map Token.val)) ∧
      searchKeyID kit (plainKeyArgs (t :: rest)) = searchKeyID kit (t.val :: args.map Token.val) ∧
      ∀ c, parseSearchKey kit c (plainKeyArgs (t :: rest)) =
        ((parseSearchKey kit c (t.val :: args.map Token.val)).1, args.length) := by
  have hvals : plainKeyArgs (t :: rest) =
      t.val :: ((rest.takeWhile fun t => !t.isOpen && !t.isClose).take 2).map Token.val := by
    simp [plainKeyArgs, hopen, hclose]
  obtain ⟨others, more, hrest, hothers, hplain⟩ : ∃ others more, rest = others ++ more ∧
      (rest.takeWhile fun t => !t.isOpen && !t.isClose).take 2 = others ∧
      ∀ arg ∈ others, arg.isOpen = false ∧ arg.isClose = false := by
    refine ⟨_, rest.drop ((rest.takeWhile fun t => !t.isOpen && !t.isClose).take 2).length, ?_, rfl, ?_⟩
    · have hprefix : (rest.takeWhile fun t => !t.isOpen && !t.isClose).take 2 <+: rest :=
        (List.take_prefix 2 _).trans (List.takeWhile_prefix _)
      exact (List.prefix_iff_eq_append.mp hprefix).symm
    · intro arg harg
      simpa using List.mem_takeWhile_imp (List.mem_of_mem_take harg)
  rw [hothers] at hvals
  rw [hvals] at hcheck ⊢
  obtain ⟨arity, harity, hle⟩ := arityOf_of_checkSearchKey hcheck
  rw [List.length_map] at hle
  have htake : (others.take arity).map Token.val = (others.map Token.val).take arity := List.map_take
  have hlength : (others.take arity).length = arity := by
    rw [List.length_take]
    exact Nat.min_eq_left hle
  refine ⟨others.take arity, others.drop arity ++ more, ?_, ?_, ?_, fun c => ?_⟩
  · rw [← List.append_assoc, List.take_append_drop]
    exact hrest
  · exact .plain t _ hopen hclose hnot hor (by rw [hlength]; exact harity)
      fun arg harg => hplain arg (List.mem_of_mem_take harg)
  · rw [htake]
    exact (searchKey_take harity (by rw [List.length_map]; exact hle)).1
  · rw [htake, hlength]
    exact (searchKey_take harity (by rw [List.length_map]; exact hle)).2 c

theorem Denotes.group (h : Denotes kit e keys) : Denotes kit e [.group keys] := by
  refine ⟨fun view n => ?_, fun view hkeys => h.answered view fun vals hvals => hkeys vals ?_⟩
  · rw [h.holds]
    simp [allHold, Key.holds]
  · simpa [plainKeys, Key.plains] using hvals

theorem Denotes.not (h : Denotes kit x [key]) :
    Denotes kit (.mk .everything [.not x]) [.not key] := by
  refine ⟨fun view n => ?_, fun view hkeys => ?_⟩
  · simp only [SearchExpr.holds, found_everything, termsHold, SearchTerm.holds, h.holds, allHold,
      Key.holds]
    cases view.readable n <;> simp
  · refine ⟨answered_of_safe (safe_everything view), h.answered view fun vals hvals => hkeys vals ?_,
      trivial⟩
    simpa [plainKeys, Key.plains] using hvals

theorem Denotes.or {a b : SearchExpr} {first second : Key} (ha : Denotes kit a [first])
    (hb : Denotes kit b [second]) : Denotes kit (.mk .everything [.or a b]) [.or first second] := by
  refine ⟨fun view n => ?_, fun view hkeys => ?_⟩
  · simp only [SearchExpr.holds, found_everything, termsHold, SearchTerm.holds, ha.holds, hb.holds,
      allHold, Key.holds]
    cases view.readable n <;> simp
  · have hplains : plainKeys [.or first second] = plainKeys [first] ++ plainKeys [second] := by
      simp [plainKeys, Key.plains]
    rw [hplains] at hkeys
    exact ⟨answered_of_safe (safe_everything view),
      ⟨ha.answered view fun vals hvals => hkeys vals (List.mem_append_left _ hvals),
        hb.answered view fun vals hvals => hkeys vals (List.mem_append_right _ hvals)⟩, trivial⟩

variable (kit) {one : Nat → List Token → Parsed} {inGroup : Bool} in

def TakesKey (one : Nat → List Token → Parsed) : Prop :=
  ∀ nodes toks x rest nodes', one nodes toks = .ok (x, rest, nodes') →
    ∃ taken key, toks = taken ++ rest ∧ Reads kit taken key ∧ Denotes kit x [key]

def Ends (inGroup : Bool) (closing rest : List Token) : Prop :=
  if inGroup then ∃ close, closing = [close] ∧ close.isClose = true else closing = [] ∧ rest = []

theorem seqLoop_nil {fuel nodes nodes' : Nat}
    (h : seqLoop kit one inGroup fuel nodes used flat terms [] = .ok (e, rest, nodes')) :
    e = .mk flat terms ∧ rest = [] ∧ Ends inGroup [] rest := by
  rw [seqLoop] at h
  cases inGroup with
  | true => cases h
  | false =>
    cases h
    exact ⟨rfl, rfl, rfl, rfl⟩

-- The invariant of the loop is that what has been built means the keys read so
-- far. The induction is on the rounds.
theorem seqLoop_spec (hone : TakesKey kit one)
    {fuel nodes nodes' : Nat} {toks : List Token} (hbuilt : Built kit flat terms used keys)
    (h : seqLoop kit one inGroup fuel nodes used flat terms toks = .ok (e, rest, nodes')) :
    ∃ taken closing more, toks = taken ++ closing ++ rest ∧ ReadsAll kit taken more ∧
      Denotes kit e (keys ++ more) ∧ Ends inGroup closing rest := by
  have hnone : Denotes kit (.mk flat terms) (keys ++ []) := by
    rw [List.append_nil]
    exact hbuilt.denotes
  induction fuel generalizing nodes used flat terms toks keys with
  | zero =>
    cases toks with
    | nil =>
      obtain ⟨rfl, rfl, hends⟩ := seqLoop_nil h
      exact ⟨[], [], [], rfl, .nil, hnone, hends⟩
    | cons t toks => cases h
  | succ fuel ih =>
    cases toks with
    | nil =>
      obtain ⟨rfl, rfl, hends⟩ := seqLoop_nil h
      exact ⟨[], [], [], rfl, .nil, hnone, hends⟩
    | cons t toks =>
      -- One more key, and the rest of the list behind it.
      have hnext : ∀ {taken next : List Token} {key : Key} {nodes used flat terms},
          t :: toks = taken ++ next → Reads kit taken key →
          Built kit flat terms used (keys ++ [key]) →
          seqLoop kit one inGroup fuel nodes used flat terms next = .ok (e, rest, nodes') →
          ∃ taken closing more, t :: toks = taken ++ closing ++ rest ∧ ReadsAll kit taken more ∧
            Denotes kit e (keys ++ more) ∧ Ends inGroup closing rest := by
        intro taken next key nodes used flat terms htoks hreads hbuilt hloop
        obtain ⟨taken', closing, more, hnext, hall, hdenotes, hends⟩ :=
          ih hbuilt hloop (by rw [List.append_nil]; exact hbuilt.denotes)
        refine ⟨taken ++ taken', closing, key :: more, ?_, .cons hreads hall, ?_, hends⟩
        · rw [htoks, hnext]
          simp
        · rw [List.append_assoc] at hdenotes
          exact hdenotes
      rw [seqLoop] at h
      split_ifs at h with hclose hgroup hterm
      · cases h
        exact ⟨[], [t], [], rfl, .nil, hnone, by rw [hgroup]; exact ⟨t, rfl, hclose⟩⟩
      · obtain ⟨⟨x, next, nodes''⟩, hsub, h⟩ := ok_of_bind h
        obtain ⟨taken, key, htoks, hreads, hdenotes⟩ := hone _ _ _ _ _ hsub
        exact hnext htoks hreads (hbuilt.sub hdenotes) h
      · simp only [Bool.or_eq_true, not_or, Bool.not_eq_true] at hterm hclose
        dsimp only at h
        obtain ⟨_, hcheck, h⟩ := ok_of_bind h
        obtain ⟨args, tail, rfl, hreads, hid, hparse⟩ :=
          reads_plain hterm.1.1 hclose hterm.1.2 hterm.2 hcheck
        have hdrop : (t :: (args ++ tail)).drop (args.length + 1) = tail := by simp
        rw [hid, hparse, hparse, hdrop] at h
        split_ifs at h with hused
        · exact hnext (List.cons_append.symm) hreads (hbuilt.sub (built_plain _)) h
        · exact hnext (List.cons_append.symm) hreads
            (hbuilt.plain (Bool.eq_false_iff.mpr hused)) h

mutual

theorem parseSearchSeq_spec : ∀ (left : Nat) {inGroup : Bool} {nodes nodes' : Nat}
    {toks rest : List Token} {e : SearchExpr},
    parseSearchSeq kit left inGroup nodes toks = .ok (e, rest, nodes') →
    ∃ taken closing keys, toks = taken ++ closing ++ rest ∧ ReadsAll kit taken keys ∧
      Denotes kit e keys ∧ Ends inGroup closing rest
  | 0, _, _, _, _, _, _, h => by
    rw [parseSearchSeq] at h
    cases h
  | left + 1, inGroup, nodes, nodes', toks, rest, e, h => by
    rw [parseSearchSeq] at h
    split_ifs at h
    exact seqLoop_spec (parseSearchOne_spec left) built_nil h

theorem parseSearchOne_spec : ∀ (left : Nat), TakesKey kit (parseSearchOne kit left)
  | 0, _, _, _, _, _, h => by
    rw [parseSearchOne] at h
    cases h
  | left + 1, nodes, toks, x, rest, nodes', h => by
    unfold parseSearchOne at h
    split_ifs at h
    rcases toks with _ | ⟨t, toks⟩
    · cases h
    dsimp only at h
    split_ifs at h with hopen hnot hor hclose
    · obtain ⟨taken, closing, keys, rfl, hreads, hdenotes, hends⟩ := parseSearchSeq_spec left h
      obtain ⟨close, rfl, hclose⟩ := hends
      refine ⟨t :: taken ++ [close], .group keys, by simp, .group t close hopen hclose hreads, ?_⟩
      exact hdenotes.group
    · obtain ⟨⟨y, next, nodes''⟩, hx, h⟩ := ok_of_bind h
      cases h
      obtain ⟨taken, key, rfl, hreads, hdenotes⟩ := parseSearchOne_spec left _ _ _ _ _ hx
      exact ⟨t :: taken, .not key, rfl,
        .not t (Bool.eq_false_iff.mpr hopen) hnot hreads, hdenotes.not⟩
    · obtain ⟨⟨a, next, nodes''⟩, ha, h⟩ := ok_of_bind h
      obtain ⟨⟨b, next', nodes'''⟩, hb, h⟩ := ok_of_bind h
      cases h
      obtain ⟨taken, first, rfl, hfirst, hda⟩ := parseSearchOne_spec left _ _ _ _ _ ha
      obtain ⟨taken', second, rfl, hsecond, hdb⟩ := parseSearchOne_spec left _ _ _ _ _ hb
      exact ⟨t :: taken ++ taken', .or first second, by simp,
        .or t (Bool.eq_false_iff.mpr hopen) (Bool.eq_false_iff.mpr hnot) hor hfirst hsecond,
        hda.or hdb⟩
    · obtain ⟨_, hcheck, h⟩ := ok_of_bind h
      obtain ⟨args, tail, rfl, hreads, _, hparse⟩ :=
        reads_plain (Bool.eq_false_iff.mpr hopen) (Bool.eq_false_iff.mpr hclose)
          (Bool.eq_false_iff.mpr hnot) (Bool.eq_false_iff.mpr hor) hcheck
      have hdrop : (t :: (args ++ tail)).drop (args.length + 1) = tail := by simp
      rw [hparse, hdrop] at h
      cases h
      exact ⟨t :: args, _, rfl, hreads, built_plain _⟩

end

end Parsing

section Grammar

variable {t : Token}

theorem Token.val_of_isClose (h : t.isClose = true) : t.val = bytes ")" := by
  simp only [Token.isClose, Bool.and_eq_true, decide_eq_true_eq] at h
  exact h.2

theorem not_isNot_of_isClose (h : t.isClose = true) : t.isNot kit = false := by
  rw [Bool.eq_false_iff]
  intro hnot
  simp only [Token.isNot, Bool.and_eq_true, Token.val_of_isClose h] at hnot
  exact absurd (kit.equalFold_close _ hnot.2) (by decide)

theorem not_isOr_of_isClose (h : t.isClose = true) : t.isOr kit = false := by
  rw [Bool.eq_false_iff]
  intro hor
  simp only [Token.isOr, Bool.and_eq_true, Token.val_of_isClose h] at hor
  exact absurd (kit.equalFold_close _ hor.2) (by decide)

theorem not_isOpen_of_isClose (h : t.isClose = true) : t.isOpen = false := by
  rw [Token.isOpen, Token.val_of_isClose h]
  simp only [Bool.and_eq_false_iff]
  exact .inr (by decide)

theorem Reads.first {toks : List Token} {key : Key} (h : Reads kit toks key) :
    ∃ t tail, toks = t :: tail ∧ t.isClose = false := by
  cases h with
  | plain t args _ hclose => exact ⟨t, args, rfl, hclose⟩
  | not t _ hnot _ =>
    refine ⟨t, _, rfl, Bool.eq_false_iff.mpr fun hclose => ?_⟩
    rw [not_isNot_of_isClose hclose] at hnot
    cases hnot
  | or t _ _ hor _ _ =>
    refine ⟨t, _, rfl, Bool.eq_false_iff.mpr fun hclose => ?_⟩
    rw [not_isOr_of_isClose hclose] at hor
    cases hor
  | group t close hopen _ _ =>
    refine ⟨t, _, rfl, Bool.eq_false_iff.mpr fun hclose => ?_⟩
    rw [not_isOpen_of_isClose hclose] at hopen
    cases hopen

def AtEnd (rest : List Token) : Prop := ∀ t tail, rest = t :: tail → t.isClose = true

mutual

-- The tokens decide where a key ends and what it is.
theorem Reads.unique : ∀ {toks : List Token} {key : Key}, Reads kit toks key →
    ∀ {toks' : List Token} {key' : Key} {rest rest' : List Token}, Reads kit toks' key' →
      toks ++ rest = toks' ++ rest' → toks = toks' ∧ key = key' ∧ rest = rest'
  | _, _, .plain t args hopen _ hnot hor harity _, toks', key', rest, rest', h', heq => by
    cases h' with
    | plain t' args' _ _ _ _ harity' _ =>
      obtain ⟨rfl, htail⟩ := List.cons.inj heq
      rw [harity, Option.some.injEq] at harity'
      obtain ⟨rfl, rfl⟩ := List.append_inj htail harity'
      exact ⟨rfl, rfl, rfl⟩
    | not | or | group => simp_all
  | _, _, .not t hopen hnot h, toks', key', rest, rest', h', heq => by
    cases h' with
    | not t' _ hnot' hkey =>
      obtain ⟨rfl, htail⟩ := List.cons.inj heq
      obtain ⟨rfl, rfl, rfl⟩ := h.unique hkey htail
      exact ⟨rfl, rfl, rfl⟩
    | plain | or | group => simp_all
  | _, _, .or t hopen hnot hor hfirst hsecond, toks', key', rest, rest', h', heq => by
    cases h' with
    | or t' _ _ _ hfirst' hsecond' =>
      simp only [List.cons_append, List.append_assoc] at heq
      obtain ⟨rfl, htail⟩ := List.cons.inj heq
      obtain ⟨rfl, rfl, htail⟩ := hfirst.unique hfirst' htail
      obtain ⟨rfl, rfl, rfl⟩ := hsecond.unique hsecond' htail
      exact ⟨rfl, rfl, rfl⟩
    | plain | not | group => simp_all
  | _, _, .group t close hopen hclose h, toks', key', rest, rest', h', heq => by
    cases h' with
    | plain | not | or => simp_all
    | group t' close' _ hclose' hkeys =>
      simp only [List.cons_append, List.append_assoc, List.nil_append] at heq
      obtain ⟨rfl, htail⟩ := List.cons.inj heq
      obtain ⟨rfl, rfl, hend⟩ := h.unique hkeys
        (fun t tail he => by cases he; exact hclose) (fun t tail he => by cases he; exact hclose') htail
      obtain ⟨rfl, rfl⟩ := List.cons.inj hend
      exact ⟨rfl, rfl, rfl⟩

theorem ReadsAll.unique : ∀ {toks : List Token} {keys : List Key}, ReadsAll kit toks keys →
    ∀ {toks' : List Token} {keys' : List Key} {rest rest' : List Token}, ReadsAll kit toks' keys' →
      AtEnd rest → AtEnd rest' → toks ++ rest = toks' ++ rest' →
        toks = toks' ∧ keys = keys' ∧ rest = rest'
  | _, _, .nil, toks', keys', rest, rest', h', hrest, _, heq => by
    rcases h' with _ | ⟨hkey, _⟩
    · exact ⟨rfl, rfl, heq⟩
    obtain ⟨t, tail, rfl, hopen⟩ := hkey.first
    rw [hrest t _ heq] at hopen
    cases hopen
  | _, _, .cons hkey hkeys, toks', keys', rest, rest', h', hrest, hrest', heq => by
    cases h' with
    | nil =>
      obtain ⟨t, tail, rfl, hopen⟩ := hkey.first
      rw [hrest' t _ heq.symm] at hopen
      cases hopen
    | cons hkey' hkeys' =>
      simp only [List.append_assoc] at heq
      obtain ⟨rfl, rfl, htail⟩ := hkey.unique hkey' heq
      obtain ⟨rfl, rfl, rfl⟩ := hkeys.unique hkeys' hrest hrest' htail
      exact ⟨rfl, rfl, rfl⟩

end

end Grammar

variable (kit view) in

-- The keys are read from the tokens in one way only. What is answered is the
-- messages for which all of them hold, in ascending order, and there is an
-- answer when every plain key can be answered.
def SearchesExactly (toks : List Token) (e : SearchExpr) : Prop :=
  ∃ program keys, programKeys kit toks = .ok program ∧ ReadsAll kit program keys ∧
    (∀ keys', ReadsAll kit program keys' → keys' = keys) ∧
    (∀ nums, evalSearch kit view e = .ok nums →
      nums = view.seqNums.filter fun n => allHold kit view n keys) ∧
    ((∀ vals ∈ plainKeys keys, Answerable kit view vals) → ∃ nums, evalSearch kit view e = .ok nums)

theorem toUpper_eq_close {s : Bytes} (h : toUpper s = bytes ")") : s = bytes ")" := by
  obtain ⟨c, rfl, hc⟩ := List.map_eq_singleton_iff.mp h
  have hclose : c = 41 := by
    unfold toUpperByte at hc
    split_ifs at hc with hlower
    · rw [UInt8.le_iff_toNat_le] at hlower
      have htoNat := congrArg UInt8.toNat hc
      rw [UInt8.toNat_sub_of_le _ _ (UInt8.le_iff_toNat_le.mpr (Nat.le_trans (by decide) hlower.1))]
        at htoNat
      have hlow : 97 ≤ c.toNat := hlower.1
      have hval : c.toNat - 32 = 41 := htoNat
      omega
    · exact hc
  rw [hclose]
  rfl

def plainToolkit : Toolkit where
  toUpper := toUpper
  toLower := toLower
  equalFold := equalFold
  parseIMAPDate _ := none
  parseMessageDate _ := none
  isZero t := t = 0
  before s t := s < t
  equal s t := s = t
  startOfDay := id
  startOfUTCDay := id
  ccHeader _ := none
  decodeEncodedWords := id
  decodedHeaderText := id
  decodedBodyText := id
  mapOrder _ entries := entries
  equalFold_close _ h := toUpper_eq_close (eq_of_beq h).symm
  isZero_zero := rfl
  mapOrder_perm _ _ := .rfl

def threeMessages : SearchView where
  uids := [4, 7, 9]
  metadata uid := some { MessageMetadata.empty with
    uid := uid
    size := uid.toNat
    messageID := if uid = 4 then bytes "aa" else bytes "bb"
    flags := if uid = 4 then [bytes "\\Seen", bytes "\\Flagged"]
      else if uid = 9 then [bytes "\\flagged"] else [] }
  readMessage id := if id = bytes "aa" then none else some (bytes "Subject: a b\r\n\r\nc\r\n")
  recentUIDs := []
  snap := [4, 7, 9]
  snapOn := true

def tokens (words : List String) : List Token := words.map fun word => ⟨bytes word, false⟩

def smallUnseen : List Token :=
  tokens ["LARGER", "5", "LARGER", "3", "NOT", "SEEN", "OR", "FLAGGED", "2:*", "HEADER", "subject", "B"]

end UMail.Imap
