import UMail.Imap.Search.Meaning

namespace UMail.Imap

open UMail.Storage
open UMail.Mailstore (liveSet selectUIDs)

section Fields

variable (kit : Toolkit) (view : SearchView)

def liveRanges (set : Bytes) : Except SearchError (Option (List SeqRange)) :=
  if view.snapOn && set ≠ [] then
    match parseSet set with
    | .error e => .error e
    | .ok [] => .ok none
    | .ok ranges =>
      let live := liveSet view.uids (selectUIDs ranges view.snap)
      if live = [] then .ok none else (parseSet live).map some
  else (parseSet set).map some

structure RowAdmits (c : SearchCriteria) (metadata : MessageMetadata) : Prop where
  marked : ∀ m, c.marked m = true → markHolds kit view.recentUIDs metadata m = true
  keyword : ∀ k ∈ c.keyword, kit.hasFlag metadata.flags k = true
  unkeyword : ∀ k ∈ c.unkeyword, kit.hasFlag metadata.flags k = false
  address : ∀ k, c.text k ≠ [] → addressHolds kit metadata (c.text k) k = true
  size : ∀ k, 0 < c.size k ∨ c.sizeSet k = true → sizeHolds metadata (c.size k) k = true
  date : ∀ k, kit.isZero (c.date k) = false → dateHolds kit metadata (c.date k) k = true

structure FileAdmits (c : SearchCriteria) (data : Option Bytes) : Prop where
  content : ∀ k ∈ contentKeys, c.text k ≠ [] →
    ∃ msgData, data = some msgData ∧ contentHolds kit msgData (c.text k) k = true
  header : ∀ entry ∈ c.header, ∃ msgData, data = some msgData ∧ headerHolds kit msgData entry = .ok true

structure SetsAdmit (c : SearchCriteria) (n : Nat) (uid : UInt32) : Prop where
  seqSet : c.seqSet ≠ [] → ∃ ranges, liveRanges view c.seqSet = .ok (some ranges) ∧
    inRanges ranges (UInt32.ofNat n) (UInt32.ofNat view.uids.length) = true
  uidSet : c.uidSet ≠ [] → ∃ ranges, parseSet c.uidSet = .ok ranges ∧
    inRanges ranges uid view.maxUID = true

structure Admits (c : SearchCriteria) (n : Nat) (uid : UInt32) (metadata : MessageMetadata) :
    Prop where
  sets : SetsAdmit view c n uid
  row : RowAdmits kit view c metadata
  file : FileAdmits kit c (view.readMessage metadata.messageID)

variable {kit view}

theorem mem_marks {m : Mark} (h : m ≠ .all) : m ∈ marks := by
  cases m <;> first | exact absurd rfl h | decide

theorem mem_dates (k : DateKey) : k ∈ dates := by cases k <;> decide

variable {c : SearchCriteria} {data : Bytes} {metadata : MessageMetadata}
  {entries : List (Bytes × Bytes)} {n : Nat} {uid : UInt32}

theorem metadataMatches_iff :
    metadataMatches kit view.recentUIDs metadata c = true ↔ RowAdmits kit view c metadata := by
  simp only [metadataMatches, Bool.and_eq_true, List.all_eq_true, Bool.or_eq_true,
    Bool.not_eq_true', Bool.or_eq_false_iff, decide_eq_true_eq, decide_eq_false_iff_not]
  constructor
  · rintro ⟨⟨⟨⟨⟨hmarks, hkeyword⟩, hunkeyword⟩, htext⟩, hsize⟩, hdate⟩
    refine ⟨fun m hm => ?_, hkeyword, hunkeyword, fun k hk => ?_, fun k hk => ?_, fun k hk => ?_⟩
    · by_cases hall : m = .all
      · rw [hall]
        rfl
      · exact (hmarks m (mem_marks hall)).resolve_left (by simp [hm])
    · by_cases hin : k ∈ [TextKey.fromAddr, .toAddr, .subject]
      · exact (htext k hin).resolve_left hk
      · cases k <;> first | rfl | exact absurd (by decide) hin
    · refine (hsize k (by cases k <;> decide)).resolve_left fun hunset => ?_
      rcases hk with hk | hk
      · exact hunset.1 hk
      · rw [hk] at hunset
        cases hunset.2
    · exact (hdate k (mem_dates k)).resolve_left (by simp [hk])
  · intro h
    refine ⟨⟨⟨⟨⟨fun m _ => ?_, h.keyword⟩, h.unkeyword⟩, fun k _ => ?_⟩, fun k _ => ?_⟩, fun k _ => ?_⟩
    · cases hm : c.marked m with
      | false => exact .inl rfl
      | true => exact .inr (h.marked m hm)
    · exact or_iff_not_imp_left.mpr (h.address k)
    · by_cases hset : 0 < c.size k ∨ c.sizeSet k = true
      · exact .inr (h.size k hset)
      · rw [not_or, Bool.not_eq_true] at hset
        exact .inl hset
    · cases hk : kit.isZero (c.date k) with
      | true => exact .inl rfl
      | false => exact .inr (h.date k hk)

theorem headersHold_eq_true :
    headersHold kit data entries = .ok true ↔ ∀ entry ∈ entries, headerHolds kit data entry = .ok true := by
  induction entries with
  | nil => simp [headersHold]
  | cons entry rest ih =>
    rw [List.forall_mem_cons, ← ih]
    cases hentry : headerHolds kit data entry with
    | error e => simp [headersHold, hentry, bind, Except.bind]
    | ok b => cases b <;> simp [headersHold, hentry, bind, Except.bind]

theorem headersHold_isOk (h : ∀ entry ∈ entries, (headerHolds kit data entry).isOk) :
    (headersHold kit data entries).isOk := by
  induction entries with
  | nil => rfl
  | cons entry rest ih =>
    rw [List.forall_mem_cons] at h
    refine isOk_bind h.1 fun b => ?_
    cases b with
    | false => rfl
    | true => exact ih h.2

theorem needsData_iff : needsData c = true ↔ (∃ k ∈ contentKeys, c.text k ≠ []) ∨ c.header ≠ [] := by
  simp [needsData]

theorem fileAdmits_some :
    FileAdmits kit c (some data) ↔
      (∀ k ∈ contentKeys, c.text k ≠ [] → contentHolds kit data (c.text k) k = true) ∧
        ∀ entry ∈ c.header, headerHolds kit data entry = .ok true := by
  constructor
  · intro h
    refine ⟨fun k hk htext => ?_, fun entry hentry => ?_⟩
    · obtain ⟨_, hsome, hholds⟩ := h.content k hk htext
      cases hsome
      exact hholds
    · obtain ⟨_, hsome, hholds⟩ := h.header entry hentry
      cases hsome
      exact hholds
  · rintro ⟨hcontent, hheader⟩
    exact ⟨fun k hk htext => ⟨data, rfl, hcontent k hk htext⟩,
      fun entry hentry => ⟨data, rfl, hheader entry hentry⟩⟩

theorem matchesCriteria_some :
    matchesCriteria kit view.recentUIDs metadata (some data) c = .ok true ↔
      metadataMatches kit view.recentUIDs metadata c = true ∧
        (∀ k ∈ contentKeys, c.text k ≠ [] → contentHolds kit data (c.text k) k = true) ∧
          ∀ entry ∈ c.header, headerHolds kit data entry = .ok true := by
  have hcontent : contentMatches kit data c = true ↔
      ∀ k ∈ contentKeys, c.text k ≠ [] → contentHolds kit data (c.text k) k = true := by
    simp only [contentMatches, List.all_eq_true, Bool.or_eq_true, decide_eq_true_eq,
      or_iff_not_imp_left]
  have hheader : headersHold kit data (kit.mapOrder metadata.uid c.header) = .ok true ↔
      ∀ entry ∈ c.header, headerHolds kit data entry = .ok true := by
    rw [headersHold_eq_true]
    exact forall_congr' fun entry => by rw [(kit.mapOrder_perm metadata.uid c.header).mem_iff]
  unfold matchesCriteria
  rw [← hcontent, ← hheader]
  cases metadataMatches kit view.recentUIDs metadata c with
  | false => simp
  | true => cases hall : contentMatches kit data c <;> simp [hall]

theorem matchLoaded_eq_true :
    matchLoaded kit view c metadata = .ok true ↔
      RowAdmits kit view c metadata ∧ FileAdmits kit c (view.readMessage metadata.messageID) := by
  rw [← metadataMatches_iff]
  unfold matchLoaded
  by_cases hneeds : needsData c = true
  · rw [if_pos hneeds]
    cases hdata : view.readMessage metadata.messageID with
    | none =>
      refine ⟨fun h => (by cases h), fun ⟨_, hfile⟩ => ?_⟩
      rcases needsData_iff.mp hneeds with ⟨k, hk, htext⟩ | hheader
      · obtain ⟨_, hnone, _⟩ := hfile.content k hk htext
        cases hnone
      · obtain ⟨entry, hentry⟩ := List.exists_mem_of_ne_nil _ hheader
        obtain ⟨_, hnone, _⟩ := hfile.header entry hentry
        cases hnone
    | some data =>
      rw [matchesCriteria_some, fileAdmits_some]
  · rw [if_neg hneeds]
    rw [needsData_iff, not_or] at hneeds
    have hfile : FileAdmits kit c (view.readMessage metadata.messageID) :=
      ⟨fun k hk htext => absurd ⟨k, hk, htext⟩ hneeds.1, fun entry hentry => by
        rw [not_not.mp hneeds.2] at hentry
        cases hentry⟩
    rw [and_iff_left hfile]
    cases hrow : metadataMatches kit view.recentUIDs metadata c <;> simp [matchesCriteria, hrow]

theorem parseSet_nil : parseSet [] = .ok [] := by decide

theorem liveRanges_nil : liveRanges view [] = .ok (some []) := by
  simp [liveRanges, parseSet_nil, Except.map]

-- The translated set is only compared with, so a scan may as well be made with
-- the criteria as they were.
theorem matchLive_seqSet {live : Bytes} (hset : c.seqSet ≠ []) (hlive : live ≠ []) (n : Nat)
    (seqRanges : List SeqRange) :
    matchLive kit view { c with seqSet := live } n seqRanges = matchLive kit view c n seqRanges := by
  have hmessage : ∀ uidRanges uid,
      searchMessage kit view { c with seqSet := live } seqRanges uidRanges n uid =
        searchMessage kit view c seqRanges uidRanges n uid := by
    intro uidRanges uid
    simp only [searchMessage, hset, hlive, ne_eq]
    rfl
  simp only [matchLive, hmessage]

theorem matchesAt_eq (c : SearchCriteria) (n : Nat) : matchesAt kit view c n =
    (liveRanges view c.seqSet).bind fun ranges =>
      ranges.elim (.ok false) (matchLive kit view c n) := by
  unfold matchesAt liveCriteria liveRanges
  by_cases hsnap : (view.snapOn && c.seqSet ≠ []) = true
  · rw [if_pos hsnap, if_pos hsnap]
    have hset : c.seqSet ≠ [] := of_decide_eq_true (Bool.and_eq_true_iff.mp hsnap).2
    rcases parseSet c.seqSet with e | ranges
    · rfl
    rcases ranges with _ | ⟨r, ranges⟩
    · rfl
    dsimp only
    split_ifs with hlive
    · rfl
    simp only [bind, Except.bind]
    cases parseSet (liveSet view.uids (selectUIDs (r :: ranges) view.snap)) with
    | error e => rfl
    | ok live => exact matchLive_seqSet hset hlive n live
  · rw [if_neg hsnap, if_neg hsnap]
    simp only [bind, Except.bind]
    cases parseSet c.seqSet <;> rfl

theorem found_eq_true {r : Except SearchError Bool} : found r = true ↔ r = .ok true := by
  cases r <;> simp

theorem searchMessage_eq_true {seqRanges uidRanges : List SeqRange} :
    searchMessage kit view c seqRanges uidRanges n uid = .ok true ↔
      (c.seqSet ≠ [] → inRanges seqRanges (UInt32.ofNat n) (UInt32.ofNat view.uids.length) = true) ∧
      (c.uidSet ≠ [] → inRanges uidRanges uid view.maxUID = true) ∧
      ∃ metadata, view.metadata uid = some metadata ∧ matchLoaded kit view c metadata = .ok true := by
  unfold searchMessage
  split_ifs with hseq huid
  · simp only [Bool.and_eq_true, decide_eq_true_eq, Bool.not_eq_true'] at hseq
    simp [hseq]
  · simp only [Bool.and_eq_true, decide_eq_true_eq, Bool.not_eq_true'] at huid
    simp [huid]
  · simp only [Bool.and_eq_true, decide_eq_true_eq, Bool.not_eq_true', not_and,
      Bool.not_eq_false] at hseq huid
    rw [and_iff_right hseq, and_iff_right huid]
    cases view.metadata uid <;> simp

-- Both sets can be read where a message is admitted, also when they are empty.
theorem setsAdmit_iff :
    SetsAdmit view c n uid ↔ ∃ seqRanges uidRanges,
      liveRanges view c.seqSet = .ok (some seqRanges) ∧ parseSet c.uidSet = .ok uidRanges ∧
      (c.seqSet ≠ [] → inRanges seqRanges (UInt32.ofNat n) (UInt32.ofNat view.uids.length) = true) ∧
      (c.uidSet ≠ [] → inRanges uidRanges uid view.maxUID = true) := by
  constructor
  · intro h
    obtain ⟨seqRanges, hseq, hseqIn⟩ : ∃ ranges, liveRanges view c.seqSet = .ok (some ranges) ∧
        (c.seqSet ≠ [] →
          inRanges ranges (UInt32.ofNat n) (UInt32.ofNat view.uids.length) = true) := by
      by_cases hset : c.seqSet = []
      · exact ⟨[], by rw [hset, liveRanges_nil], fun hne => absurd hset hne⟩
      · obtain ⟨ranges, hranges, hin⟩ := h.seqSet hset
        exact ⟨ranges, hranges, fun _ => hin⟩
    obtain ⟨uidRanges, huid, huidIn⟩ : ∃ ranges, parseSet c.uidSet = .ok ranges ∧
        (c.uidSet ≠ [] → inRanges ranges uid view.maxUID = true) := by
      by_cases hset : c.uidSet = []
      · exact ⟨[], by rw [hset, parseSet_nil], fun hne => absurd hset hne⟩
      · obtain ⟨ranges, hranges, hin⟩ := h.uidSet hset
        exact ⟨ranges, hranges, fun _ => hin⟩
    exact ⟨seqRanges, uidRanges, hseq, huid, hseqIn, huidIn⟩
  · rintro ⟨seqRanges, uidRanges, hseq, huid, hseqIn, huidIn⟩
    exact ⟨fun hne => ⟨seqRanges, hseq, hseqIn hne⟩, fun hne => ⟨uidRanges, huid, huidIn hne⟩⟩

-- A message is found when every field of the criteria admits it.
theorem found_matchesAt :
    found (matchesAt kit view c n) = true ↔ ∃ uid metadata, view.uids[n - 1]? = some uid ∧
      view.metadata uid = some metadata ∧ Admits kit view c n uid metadata := by
  rw [found_eq_true, matchesAt_eq]
  constructor
  · intro h
    rcases hseq : liveRanges view c.seqSet with e | ranges
    · simp [hseq, Except.bind] at h
    rcases ranges with _ | seqRanges
    · simp [hseq, Except.bind] at h
    simp only [hseq, Except.bind, Option.elim_some, matchLive, bind] at h
    rcases hparse : parseSet c.uidSet with e | uidRanges
    · simp [hparse] at h
    rcases huid : view.uids[n - 1]? with _ | uid
    · simp [hparse, huid] at h
    simp only [hparse, huid, searchMessage_eq_true] at h
    obtain ⟨hseqIn, huidIn, metadata, hmetadata, hmatch⟩ := h
    obtain ⟨hrow, hfile⟩ := matchLoaded_eq_true.mp hmatch
    exact ⟨uid, metadata, rfl, hmetadata,
      ⟨setsAdmit_iff.mpr ⟨seqRanges, uidRanges, hseq, hparse, hseqIn, huidIn⟩,
        hrow, hfile⟩⟩
  · rintro ⟨uid, metadata, huid, hmetadata, hadmits⟩
    obtain ⟨seqRanges, uidRanges, hseq, hparse, hseqIn, huidIn⟩ := setsAdmit_iff.mp hadmits.sets
    simp only [hseq, Except.bind, Option.elim_some, matchLive, hparse, huid]
    exact searchMessage_eq_true.mpr ⟨hseqIn, huidIn, metadata, hmetadata,
      matchLoaded_eq_true.mpr ⟨hadmits.row, hadmits.file⟩⟩

end Fields

section Merge

inductive Field
  | seqSet | uidSet | marked | keyword | unkeyword | address | size | date | content | header

variable (kit : Toolkit) (view : SearchView) (n : Nat) (uid : UInt32) (metadata : MessageMetadata)

def FieldAdmits (c : SearchCriteria) : Field → Prop
  | .seqSet => c.seqSet ≠ [] → ∃ ranges, liveRanges view c.seqSet = .ok (some ranges) ∧
      inRanges ranges (UInt32.ofNat n) (UInt32.ofNat view.uids.length) = true
  | .uidSet => c.uidSet ≠ [] → ∃ ranges, parseSet c.uidSet = .ok ranges ∧
      inRanges ranges uid view.maxUID = true
  | .marked => ∀ m, c.marked m = true → markHolds kit view.recentUIDs metadata m = true
  | .keyword => ∀ k ∈ c.keyword, kit.hasFlag metadata.flags k = true
  | .unkeyword => ∀ k ∈ c.unkeyword, kit.hasFlag metadata.flags k = false
  | .address => ∀ k, c.text k ≠ [] → addressHolds kit metadata (c.text k) k = true
  | .size => ∀ k, 0 < c.size k ∨ c.sizeSet k = true → sizeHolds metadata (c.size k) k = true
  | .date => ∀ k, kit.isZero (c.date k) = false → dateHolds kit metadata (c.date k) k = true
  | .content => ∀ k ∈ contentKeys, c.text k ≠ [] →
      ∃ data, view.readMessage metadata.messageID = some data ∧
        contentHolds kit data (c.text k) k = true
  | .header => ∀ entry ∈ c.header, ∃ data, view.readMessage metadata.messageID = some data ∧
      headerHolds kit data entry = .ok true

variable {kit view n uid metadata}

variable {c : SearchCriteria} {used used' : List Slot} {name : Bytes} {key : SearchKey}

theorem admits_iff_fields :
    Admits kit view c n uid metadata ↔ ∀ f, FieldAdmits kit view n uid metadata c f := by
  constructor
  · rintro ⟨sets, row, file⟩ f
    cases f with
    | seqSet => exact sets.seqSet
    | uidSet => exact sets.uidSet
    | marked => exact row.marked
    | keyword => exact row.keyword
    | unkeyword => exact row.unkeyword
    | address => exact row.address
    | size => exact row.size
    | date => exact row.date
    | content => exact file.content
    | header => exact file.header
  · intro h
    exact ⟨⟨h .seqSet, h .uidSet⟩,
      ⟨h .marked, h .keyword, h .unkeyword, h .address, h .size, h .date⟩,
      ⟨h .content, h .header⟩⟩

theorem everything_marked {recent : List UInt32} {m : Mark}
    (h : SearchCriteria.everything.marked m = true) : markHolds kit recent metadata m = true := by
  obtain rfl := of_decide_eq_true h
  rfl

theorem everything_admits (f : Field) : FieldAdmits kit view n uid metadata .everything f := by
  cases f with
  | seqSet | uidSet => exact fun h => absurd rfl h
  | marked => exact fun m hm => everything_marked hm
  | keyword | unkeyword => exact fun k hk => absurd hk List.not_mem_nil
  | address => exact fun k hk => absurd rfl hk
  | size => exact fun k hk => absurd hk (by simp [SearchCriteria.everything])
  | date =>
    intro k hk
    rw [show SearchCriteria.everything.date k = 0 from rfl, kit.isZero_zero] at hk
    cases hk
  | content => exact fun k _ hk => absurd rfl hk
  | header => exact fun entry hentry => absurd hentry List.not_mem_nil

-- A field is written at one key, where it asked no more than it does then.
theorem forall_update_iff_and {ι β : Type} [DecidableEq ι] {p : ι → β → Prop} {f g : ι → β} {k : ι}
    {v : β} (hstart : ∀ i, p i (g i)) (hfree : p k v → p k (f k)) :
    (∀ i, p i (Function.update f k v i)) ↔
      (∀ i, p i (f i)) ∧ ∀ i, p i (Function.update g k v i) := by
  simp only [Function.forall_update_iff]
  constructor
  · rintro ⟨hv, hrest⟩
    refine ⟨fun i => ?_, hv, fun i _ => hstart i⟩
    by_cases hi : i = k
    · rw [hi]
      exact hfree hv
    · exact hrest i hi
  · rintro ⟨hall, hv, _⟩
    exact ⟨hv, fun i _ => hall i⟩

def Merges (kit : Toolkit) (c key both : SearchCriteria) : Prop :=
  ∀ view n uid metadata f, FieldAdmits kit view n uid metadata both f ↔
    FieldAdmits kit view n uid metadata c f ∧ FieldAdmits kit view n uid metadata key f

theorem merges_unwritten {key both : SearchCriteria} {f : Field}
    (hboth : FieldAdmits kit view n uid metadata both f = FieldAdmits kit view n uid metadata c f)
    (hkey : FieldAdmits kit view n uid metadata key f =
      FieldAdmits kit view n uid metadata .everything f) :
    FieldAdmits kit view n uid metadata both f ↔
      FieldAdmits kit view n uid metadata c f ∧ FieldAdmits kit view n uid metadata key f := by
  rw [hboth, hkey]
  exact (and_iff_left (everything_admits f)).symm

theorem merges_mark (c : SearchCriteria) (m : Mark) :
    Merges kit c { SearchCriteria.everything with
      marked := Function.update SearchCriteria.everything.marked m true }
      { c with marked := Function.update c.marked m true } := by
  intro view n uid metadata f
  cases f
  case marked =>
    exact forall_update_iff_and
      (p := fun m b => b = true → markHolds kit view.recentUIDs metadata m = true)
      (fun m hm => everything_marked hm) fun hm _ => hm rfl
  all_goals exact merges_unwritten rfl rfl

theorem merges_flag (hkey : key = .keyword ∨ key = .unkeyword) (c : SearchCriteria) (value : Bytes) :
    Merges kit c (SearchCriteria.everything.setArgument kit value key)
      (c.setArgument kit value key) := by
  intro view n uid metadata f
  rcases hkey with rfl | rfl <;> cases f
  case inl.keyword | inr.unkeyword =>
    simp [FieldAdmits, SearchCriteria.setArgument, SearchCriteria.everything, or_imp, forall_and]
  all_goals exact merges_unwritten rfl rfl

theorem merges_uid (hfree : c.uidSet = []) (value : Bytes) :
    Merges kit c (SearchCriteria.everything.setArgument kit value .uid)
      (c.setArgument kit value .uid) := by
  intro view n uid metadata f
  cases f
  case uidSet =>
    have hc : FieldAdmits kit view n uid metadata c .uidSet := fun h => absurd hfree h
    exact (and_iff_right hc).symm
  all_goals exact merges_unwritten rfl rfl

theorem merges_text {k : TextKey} (hfree : c.text k = []) (value : Bytes) :
    Merges kit c (SearchCriteria.everything.setArgument kit value (.text k))
      (c.setArgument kit value (.text k)) := by
  intro view n uid metadata f
  cases f
  case address =>
    exact forall_update_iff_and
      (p := fun k value => value ≠ [] → addressHolds kit metadata value k = true)
      (fun k hk => absurd rfl hk) fun _ h => absurd hfree h
  case content =>
    exact forall_update_iff_and
      (p := fun k value => k ∈ contentKeys → value ≠ [] →
        ∃ data, view.readMessage metadata.messageID = some data ∧ contentHolds kit data value k = true)
      (fun k _ hk => absurd rfl hk) fun _ _ h => absurd hfree h
  all_goals exact merges_unwritten rfl rfl

theorem merges_seqSet (hfree : c.seqSet = []) (set : Bytes) :
    Merges kit c { SearchCriteria.everything with seqSet := set } { c with seqSet := set } := by
  intro view n uid metadata f
  cases f
  case seqSet =>
    have hc : FieldAdmits kit view n uid metadata c .seqSet := fun h => absurd hfree h
    exact (and_iff_right hc).symm
  all_goals exact merges_unwritten rfl rfl

theorem merges_everything (c : SearchCriteria) : Merges kit c .everything c :=
  fun _ _ _ _ f => (and_iff_left (everything_admits f)).symm

theorem merges_date {k : DateKey} (hfree : c.date k = 0) (value : Bytes) :
    Merges kit c (SearchCriteria.everything.setArgument kit value (.date k))
      (c.setArgument kit value (.date k)) := by
  unfold SearchCriteria.setArgument
  rcases kit.parseIMAPDate value with _ | t
  · exact merges_everything c
  intro view n uid metadata f
  cases f
  case date =>
    refine forall_update_iff_and
      (p := fun k t => kit.isZero t = false → dateHolds kit metadata t k = true)
      (fun k hk => ?_) fun _ h => ?_
    · rw [show SearchCriteria.everything.date k = 0 from rfl, kit.isZero_zero] at hk
      cases hk
    · rw [hfree, kit.isZero_zero] at h
      cases h
  all_goals exact merges_unwritten rfl rfl

theorem merges_size {k : SizeKey} (hsize : c.size k = 0) (hset : c.sizeSet k = false) (value : Bytes) :
    Merges kit c (SearchCriteria.everything.setArgument kit value (.size k))
      (c.setArgument kit value (.size k)) := by
  unfold SearchCriteria.setArgument
  rcases parseInt64 value with _ | bound
  · exact merges_everything c
  intro view n uid metadata f
  cases f
  case size =>
    -- The size and its mark are written together, so they are looked at as one.
    have hboth := forall_update_iff_and
      (p := fun k (entry : Int × Bool) =>
        0 < entry.1 ∨ entry.2 = true → sizeHolds metadata entry.1 k = true)
      (f := fun k => (c.size k, c.sizeSet k)) (g := fun _ => (0, false)) (k := k)
      (v := (bound, true)) (fun k hk => absurd hk (by simp))
      fun _ h => absurd h (by simp [hsize, hset])
    have hupdate : ∀ (size : SizeKey → Int) (sizeSet : SizeKey → Bool) (k' : SizeKey),
        Function.update (fun k => (size k, sizeSet k)) k (bound, true) k' =
          (Function.update size k bound k', Function.update sizeSet k true k') := by
      intro size sizeSet k'
      by_cases hk : k' = k
      · rw [hk]
        simp
      · simp [hk]
    simp only [hupdate] at hboth
    exact hboth
  all_goals exact merges_unwritten rfl rfl

theorem putHeader_of_free {header : List (Bytes × Bytes)} {value : Bytes}
    (hfree : ∀ entry ∈ header, entry.1 ≠ name) :
    putHeader header name value = header ++ [(name, value)] := by
  unfold putHeader
  rw [List.filter_eq_self.mpr fun entry hentry => by simpa using hfree entry hentry]

theorem merges_header (value : Bytes) (hfree : ∀ entry ∈ c.header, entry.1 ≠ name) :
    Merges kit c { SearchCriteria.everything with
      header := putHeader SearchCriteria.everything.header name value }
      { c with header := putHeader c.header name value } := by
  rw [putHeader_of_free hfree]
  intro view n uid metadata f
  cases f
  case header =>
    simp [FieldAdmits, putHeader, SearchCriteria.everything, or_imp, forall_and]
  all_goals exact merges_unwritten rfl rfl

structure Covers (kit : Toolkit) (c : SearchCriteria) (used : List Slot) : Prop where
  seqSet : Slot.seqSet ∉ used → c.seqSet = []
  uidSet : Slot.key .uid ∉ used → c.uidSet = []
  text : ∀ k, Slot.key (.text k) ∉ used → c.text k = []
  date : ∀ k, Slot.key (.date k) ∉ used → c.date k = 0
  size : ∀ k, Slot.key (.size k) ∉ used → c.size k = 0 ∧ c.sizeSet k = false
  header : ∀ entry ∈ c.header, Slot.header (kit.toLower entry.1) ∈ used

theorem covers_everything : Covers kit .everything [] :=
  ⟨fun _ => rfl, fun _ => rfl, fun _ _ => rfl, fun _ _ => rfl, fun _ _ => ⟨rfl, rfl⟩,
    fun _ hentry => absurd hentry List.not_mem_nil⟩

theorem Covers.mono (h : Covers kit c used) (hsub : used ⊆ used') : Covers kit c used' :=
  ⟨fun hn => h.seqSet fun hs => hn (hsub hs), fun hn => h.uidSet fun hs => hn (hsub hs),
    fun k hn => h.text k fun hs => hn (hsub hs), fun k hn => h.date k fun hs => hn (hsub hs),
    fun k hn => h.size k fun hs => hn (hsub hs), fun entry hentry => hsub (h.header entry hentry)⟩

structure Joined (kit : Toolkit) (c key both : SearchCriteria) (used : List Slot) : Prop where
  merges : Merges kit c key both
  covers : Covers kit both used
  seqSet : both.seqSet = c.seqSet ∨ both.seqSet = key.seqSet
  uidSet : both.uidSet = c.uidSet ∨ both.uidSet = key.uidSet
  header : ∀ entry ∈ both.header, entry ∈ c.header ∨ entry ∈ key.header

theorem joined_everything (h : Covers kit c used) (hsub : used ⊆ used') :
    Joined kit c .everything c used' :=
  ⟨merges_everything c, h.mono hsub, .inl rfl, .inl rfl, fun _ h => .inl h⟩

theorem covers_setArgument (h : Covers kit c used) (value : Bytes) (key : SearchKey) :
    Covers kit (c.setArgument kit value key) (Slot.key key :: used) := by
  have hc : Covers kit c (Slot.key key :: used) := h.mono (List.subset_cons_self _ _)
  cases key with
  | mark m => exact hc
  | header => exact hc
  | keyword => exact { hc with }
  | unkeyword => exact { hc with }
  | uid => exact { hc with uidSet := fun hn => absurd List.mem_cons_self hn }
  | text k =>
    refine { hc with text := fun k' hn => ?_ }
    have hne : k' ≠ k := fun he => hn (he ▸ List.mem_cons_self)
    exact (Function.update_of_ne hne _ _).trans (hc.text k' hn)
  | date k =>
    unfold SearchCriteria.setArgument
    rcases kit.parseIMAPDate value with _ | t
    · exact hc
    refine { hc with date := fun k' hn => ?_ }
    have hne : k' ≠ k := fun he => hn (he ▸ List.mem_cons_self)
    exact (Function.update_of_ne hne _ _).trans (hc.date k' hn)
  | size k =>
    unfold SearchCriteria.setArgument
    rcases parseInt64 value with _ | bound
    · exact hc
    refine { hc with size := fun k' hn => ?_ }
    have hne : k' ≠ k := fun he => hn (he ▸ List.mem_cons_self)
    exact ⟨(Function.update_of_ne hne _ _).trans (hc.size k' hn).1,
      (Function.update_of_ne hne _ _).trans (hc.size k' hn).2⟩

theorem setArgument_seqSet (c : SearchCriteria) (value : Bytes) (key : SearchKey) :
    (c.setArgument kit value key).seqSet = c.seqSet := by
  unfold SearchCriteria.setArgument
  split <;> first | rfl | (split <;> rfl)

theorem setArgument_header (c : SearchCriteria) (value : Bytes) (key : SearchKey) :
    (c.setArgument kit value key).header = c.header := by
  unfold SearchCriteria.setArgument
  split <;> first | rfl | (split <;> rfl)

theorem setArgument_uidSet (c : SearchCriteria) (value : Bytes) (key : SearchKey) :
    (c.setArgument kit value key).uidSet = if key = .uid then value else c.uidSet := by
  unfold SearchCriteria.setArgument
  split <;> first | rfl | (split <;> rfl)

theorem joined_setArgument (h : Covers kit c used) (value : Bytes)
    (hmerges : Merges kit c (SearchCriteria.everything.setArgument kit value key)
      (c.setArgument kit value key)) :
    Joined kit c (SearchCriteria.everything.setArgument kit value key) (c.setArgument kit value key)
      (Slot.key key :: used) := by
  refine ⟨hmerges, covers_setArgument h value key, .inl (setArgument_seqSet c value key), ?_, ?_⟩
  · rw [setArgument_uidSet, setArgument_uidSet]
    split_ifs
    · exact .inr rfl
    · exact .inl rfl
  · intro entry hentry
    rw [setArgument_header] at hentry
    exact .inl hentry

theorem joined_oneArgument (h : Covers kit c used) (hsub : used ⊆ used') (args : List Bytes)
    (hjoined : ∀ value, Joined kit c (SearchCriteria.everything.setArgument kit value key)
      (c.setArgument kit value key) used') :
    Joined kit c (oneArgument kit .everything key args).1 (oneArgument kit c key args).1 used' := by
  cases args with
  | nil => exact joined_everything h hsub
  | cons value rest => exact hjoined value

theorem joined_header (h : Covers kit c used) (args : List Bytes)
    (hfree : Slot.header (kit.toLower (args.headD [])) ∉ used) :
    Joined kit c (twoArguments .everything args).1 (twoArguments c args).1
      (Slot.header (kit.toLower (args.headD [])) :: used) := by
  have hcovers := h.mono (List.subset_cons_self (Slot.header (kit.toLower (args.headD []))) used)
  match args, hfree, hcovers with
  | [], _, _ | [_], _, _ => exact joined_everything h (List.subset_cons_self _ used)
  | name :: value :: _, hfree, hcovers =>
    have hname : ∀ entry ∈ c.header, entry.1 ≠ name := by
      rintro entry hentry rfl
      exact hfree (h.header entry hentry)
    have hentries : ∀ entry ∈ putHeader c.header name value,
        entry ∈ c.header ∨ entry ∈ [(name, value)] := fun entry hentry =>
      List.mem_append.mp (putHeader_of_free hname ▸ hentry)
    refine ⟨merges_header value hname, ?_, .inl rfl, .inl rfl, hentries⟩
    refine { hcovers with header := fun entry hentry => ?_ }
    rcases hentries entry hentry with hentry | hentry
    · exact hcovers.header entry hentry
    · obtain rfl := List.mem_singleton.mp hentry
      exact List.mem_cons_self

-- A key whose slot is free joins the keys before it.
theorem joined_parseSearchKey (h : Covers kit c used) {vals : List Bytes}
    (hfree : (searchKeyID kit vals).any used.contains = false) :
    Joined kit c (keyCriteria kit vals) (parseSearchKey kit c vals).1
      ((searchKeyID kit vals).toList ++ used) := by
  rcases vals with _ | ⟨name, args⟩
  · exact joined_everything h (List.Subset.refl used)
  have hslot : ∀ slot ∈ slotOf kit args (keyOf kit name), slot ∉ used := by
    intro slot hslot hmem
    rw [searchKeyID, hslot, Option.any_some, List.contains_eq_mem, decide_eq_false_iff_not] at hfree
    exact hfree hmem
  rw [keyCriteria, parseSearchKey, parseSearchKey, searchKeyID]
  have hsub : ∀ slot : Slot, used ⊆ slot :: used := fun slot => List.subset_cons_self slot used
  cases hkey : keyOf kit name with
  | none =>
    rw [hkey] at hslot
    have hcovers := h.mono (hsub .seqSet)
    simp only [applyKey]
    split_ifs with hset
    · refine ⟨merges_seqSet (h.seqSet (hslot _ rfl)) _, ?_, .inr rfl, .inl rfl,
        fun _ he => .inl he⟩
      exact { hcovers with seqSet := fun hn => absurd List.mem_cons_self hn }
    · exact joined_everything h (hsub .seqSet)
  | some key =>
    rw [hkey] at hslot
    cases key with
    | mark m =>
      exact ⟨merges_mark c m, { h with }, .inl rfl, .inl rfl, fun _ he => .inl he⟩
    | header => exact joined_header h args (hslot _ rfl)
    | keyword =>
      exact joined_oneArgument h (List.Subset.refl used) args fun value =>
        ⟨merges_flag (.inl rfl) c value, { h with }, .inl rfl, .inl rfl, fun _ he => .inl he⟩
    | unkeyword =>
      exact joined_oneArgument h (List.Subset.refl used) args fun value =>
        ⟨merges_flag (.inr rfl) c value, { h with }, .inl rfl, .inl rfl, fun _ he => .inl he⟩
    | uid =>
      exact joined_oneArgument h (hsub _) args fun value =>
        joined_setArgument h value (merges_uid (h.uidSet (hslot _ rfl)) value)
    | text k =>
      exact joined_oneArgument h (hsub _) args fun value =>
        joined_setArgument h value (merges_text (h.text k (hslot _ rfl)) value)
    | date k =>
      exact joined_oneArgument h (hsub _) args fun value =>
        joined_setArgument h value (merges_date (h.date k (hslot _ rfl)) value)
    | size k =>
      exact joined_oneArgument h (hsub _) args fun value =>
        joined_setArgument h value (merges_size (h.size k (hslot _ rfl)).1
          (h.size k (hslot _ rfl)).2 value)

end Merge

end UMail.Imap
