import UMail.Mailstore.Commands
import UMail.Mailstore.Move.Theorems

namespace UMail.Mailstore

open Concurrency UMail.Storage UMail.Db UMail.Imap

-- Up to each of the messages that was there, the list is the same as before.
def Steady (uids live now : List UInt32) : Prop :=
  ∀ uid ∈ uids, uid ∈ live → live.take (live.idxOf uid + 1) <+: now

-- The list is searched, not the whole type of UIDs.
instance (uids live now : List UInt32) : Decidable (Steady uids live now) :=
  List.decidableBAll (fun uid => uid ∈ live → live.take (live.idxOf uid + 1) <+: now) uids

def listReads (mailbox : Bytes) (own : List (Event sig)) : List (List UInt32) :=
  own.filterMap fun event => listRead mailbox event.call event.result

-- At the second read the list is compared with the first, which was used to
-- translate the set.
def SteadySince (uids : List UInt32) (reads : List (List UInt32)) (now : List UInt32) : Prop :=
  match reads with
  | [live] => Steady uids live now
  | _ => True

instance (uids : List UInt32) (now : List UInt32) :
    (reads : List (List UInt32)) → Decidable (SteadySince uids reads now)
  | [live] => inferInstanceAs (Decidable (Steady uids live now))
  | [] | _ :: _ :: _ => inferInstanceAs (Decidable True)

-- When the mailstore reads the list to apply a translated set, the positions up
-- to the last message that is meant have not moved since the translation.
def Unshifted (setup : Setup) (s : Selected) (set : Bytes) (w : World sig State) (thread : Nat)
    (c : Call) (_ : Choice) : Prop :=
  match c with
  | .getMessageUIDs mailbox => thread = 0 → mailbox = s.mailbox →
      SteadySince (s.named set) (listReads s.mailbox (ownLog 0 w.log))
        (w.state.db.getMessageUIDs setup.user s.mailbox)
  | _ => True

instance (setup : Setup) (s : Selected) (set : Bytes) (w : World sig State) (thread : Nat) (c : Call)
    (choice : Choice) : Decidable (Unshifted setup s set w thread c choice) := by
  apply @Call.casesOn (fun c => Decidable (Unshifted setup s set w thread c choice)) c
  case getMessageUIDs => exact fun _ => inferInstanceAs (Decidable (_ = _ → _ = _ → SteadySince _ _ _))
  all_goals
    intros
    exact isTrue trivial

section Translation

variable {total uid n : UInt32} {ranges : List SeqRange} {i : Nat}

theorem mem_selectFrom {p : Nat} {uids : List UInt32}
    (h : (p, uid) ∈ selectFrom ranges total i uids) :
    ∃ j, uids[j]? = some uid ∧ p = i + j ∧ inRanges ranges (UInt32.ofNat p) total = true := by
  induction uids generalizing i with
  | nil => cases h
  | cons u rest ih =>
    have hrest : (p, uid) ∈ selectFrom ranges total (i + 1) rest →
        ∃ j, (u :: rest)[j]? = some uid ∧ p = i + j ∧
          inRanges ranges (UInt32.ofNat p) total = true := fun h => by
      obtain ⟨j, hj, hp, hin⟩ := ih h
      exact ⟨j + 1, by simpa using hj, by omega, hin⟩
    unfold selectFrom at h
    split_ifs at h with hin
    · rcases List.mem_cons.mp h with he | h
      · cases he
        exact ⟨0, rfl, rfl, hin⟩
      · exact hrest h
    · exact hrest h

theorem mem_of_inRanges {seqs : List UInt32} {k : UInt32} (hseqs : ∀ n ∈ seqs, n ≠ 0)
    (h : inRanges (seqs.map fun n => ⟨n, n⟩) k total = true) : k ∈ seqs := by
  simp only [inRanges, List.any_map, List.any_eq_true] at h
  obtain ⟨n, hn, hcontains⟩ := h
  simp only [Function.comp, SeqRange.contains, if_neg (hseqs n hn), UInt32.lt_irrefl,
    if_false, Bool.and_eq_true, decide_eq_true_eq] at hcontains
  rw [UInt32.le_antisymm hcontains.2 hcontains.1]
  exact hn

theorem getElem?_of_liveSeq {live : List UInt32} (h : liveSeq i live uid = some n) :
    ∃ j, live[j]? = some uid ∧ n = UInt32.ofNat (i + j) := by
  induction live generalizing i with
  | nil => cases h
  | cons u rest ih =>
    rcases Option.or_eq_some_iff.mp h with h | ⟨_, h⟩
    · obtain ⟨j, hj, hn⟩ := ih h
      exact ⟨j + 1, by simpa using hj, by rw [hn]; congr 1; omega⟩
    · split_ifs at h with he
      cases h
      exact ⟨0, by rw [he]; rfl, rfl⟩

variable {uids live now : List UInt32}

theorem Steady.getElem? (h : Steady uids live now) (hnodup : live.Nodup)
    (hmem : uid ∈ uids) (hi : live[i]? = some uid) : now[i]? = some uid := by
  obtain ⟨hlt, rfl⟩ := List.getElem?_eq_some_iff.mp hi
  have hprefix := h live[i] hmem (List.getElem_mem hlt)
  rw [hnodup.idxOf_getElem i hlt] at hprefix
  obtain ⟨tail, rfl⟩ := hprefix
  rw [List.getElem?_append_left (by simp; omega), List.getElem?_take_of_lt (Nat.lt_succ_self i)]
  exact hi

theorem liveSeq_position (h : Steady uids live now) (hnodup : live.Nodup)
    (hlen : now.length ≤ maxMessageCount) (hn : n ∈ uids.filterMap (liveSeq 1 live)) :
    ∃ uid ∈ uids, ∃ i, now[i]? = some uid ∧ n.toNat = i + 1 := by
  obtain ⟨uid, huid, hseq⟩ := List.mem_filterMap.mp hn
  obtain ⟨i, hi, rfl⟩ := getElem?_of_liveSeq hseq
  have hnow := h.getElem? hnodup huid hi
  have hlt := (List.getElem?_eq_some_iff.mp hnow).1
  refine ⟨uid, huid, i, hnow, ?_⟩
  rw [UInt32.toNat_ofNat_of_lt' (by simp only [maxMessageCount] at hlen; simp [UInt32.size]; omega)]
  omega

-- A set that was translated from a list selects the same messages of a list
-- that has not moved.
theorem mem_of_selected (h : Steady uids live now) (hnodup : live.Nodup)
    (hlen : now.length ≤ maxMessageCount)
    (hparse : parseSequenceSet (liveSet live uids) = .ok ranges)
    (hmem : uid ∈ selectUIDs ranges now) : uid ∈ uids := by
  have hne : ∀ n ∈ uids.filterMap (liveSeq 1 live), n ≠ 0 := fun n hn hzero => by
    obtain ⟨_, _, i, _, hi⟩ := liveSeq_position h hnodup hlen hn
    rw [hzero] at hi
    exact Nat.succ_ne_zero i hi.symm
  rw [liveSet, parseSequenceSet_joinComma _ hne] at hparse
  cases hparse
  obtain ⟨⟨p, _⟩, hp, rfl⟩ := List.mem_map.mp hmem
  obtain ⟨j, hj, rfl, hin⟩ := mem_selectFrom hp
  obtain ⟨named, hnamed, i, hi, hpos⟩ := liveSeq_position h hnodup hlen (mem_of_inRanges hne hin)
  have hlt := (List.getElem?_eq_some_iff.mp hj).1
  rw [UInt32.toNat_ofNat_of_lt' (by simp only [maxMessageCount] at hlen; simp [UInt32.size]; omega)]
    at hpos
  obtain rfl : i = j := by omega
  rw [hj, Option.some.injEq] at hi
  rw [hi]
  exact hnamed

end Translation

def Call.Spares : Call → Prop
  | .updateMessageMetadata _ _ _ | .updateMessageMetadataFunc _ _ _ => False
  | .deleteMessage _ _ | .storeMessageMetadata _ _ _ => False
  | _ => True

theorem spares_of_reads (c : Call) (h : c.Reads) : c.Spares := by
  cases c
  case updateMessageMetadata | updateMessageMetadataFunc | deleteMessage | storeMessageMetadata =>
    exact False.elim h
  all_goals trivial

theorem spares_of_onBlobs (c : Call) (h : c.OnBlobs) : c.Spares := by
  cases c
  case updateMessageMetadata | updateMessageMetadataFunc | deleteMessage | storeMessageMetadata =>
    exact False.elim h
  all_goals trivial

theorem affects_of_spares {c : Call} (h : c.Spares) (mailbox : Bytes) (own : List (Event sig))
    (result : c.Result) : affects mailbox own c result = none := by
  cases c
  case updateMessageMetadata | updateMessageMetadataFunc | deleteMessage | storeMessageMetadata =>
    exact False.elim h
  all_goals rfl

section Reading

variable {allowed : Call → Prop} (hread : ∀ c : Call, c.Reads → allowed c)
include hread

theorem seqToLive_calls (s : Selected) (set : Bytes) : (seqToLive s set).Calls allowed := by
  unfold seqToLive
  split
  · split
    · trivial
    · trivial
    · exact .next (hread _ trivial) fun live => by cases live <;> trivial
  · trivial

theorem fetchUnlessSilent_calls (s : Selected) (set : Bytes) (silent : Bool) :
    (fetchUnlessSilent s set silent).Calls allowed := by
  unfold fetchUnlessSilent
  split_ifs
  · trivial
  unfold fetchSel
  refine .bind (seqToLive_calls hread s set) fun live => ?_
  rcases live with e | live
  · trivial
  dsimp only
  split
  · trivial
  refine .bind (readUIDs_calls hread _) fun uids => ?_
  cases uids with
  | error e => trivial
  | ok uids => exact .bind (fetchEach_calls hread _ _) fun _ => trivial

end Reading

section Session

variable {setup : Setup} {s : Selected} {set : Bytes} {α : Type} {thread : Nat}
  {own : List (Event sig)} {event : Event sig} {c : Call} {pre : List (Event sig) → Prop}
  {post : α → List (Event sig) → Prop} {live : Bytes} {rest : c.Result → Prog α}

def TouchesNamed (s : Selected) (set : Bytes) (thread : Nat) (own : List (Event sig)) : Prop :=
  thread = 0 → ∀ uid ∈ affected s.mailbox own, uid ∈ s.named set

theorem TouchesNamed.cons (h : TouchesNamed s set thread own)
    (hnew : ∀ uid, affects s.mailbox own event.call event.result = some uid → uid ∈ s.named set) :
    TouchesNamed s set thread (event :: own) := by
  intro hthread uid hmem
  rw [affected, List.mem_append, Option.mem_toList] at hmem
  rcases hmem with hmem | hmem
  · exact hnew uid hmem
  · exact h hthread uid hmem

theorem TouchesNamed.spare (h : TouchesNamed s set thread own) (hc : Call.Spares event.call) :
    TouchesNamed s set thread (event :: own) :=
  h.cons fun uid huid => by
    rw [affects_of_spares hc] at huid
    cases huid

abbrev Touches (setup : Setup) (s : Selected) (set : Bytes) (pre : List (Event sig) → Prop)
    (program : Prog α) (post : α → List (Event sig) → Prop) : Prop :=
  Acts (machine setup) (Unshifted setup s set) (TouchesNamed s set) 0 pre program post

theorem touches_of_spares {program : Prog α} (h : program.Calls Call.Spares) :
    Touches setup s set (fun _ => True) program fun _ _ => True :=
  .of_calls h fun _ _ _ hc hgood _ => ⟨hgood.spare hc, trivial⟩

theorem touches_call (hnew : ∀ own result uid, pre own → affects s.mailbox own c result = some uid →
      uid ∈ s.named set) (hkeep : ∀ result own, pre own → pre (⟨0, c, result⟩ :: own))
    (hrest : ∀ result, Touches setup s set pre (rest result) post) :
    Touches setup s set pre (invoke c >>= rest) post :=
  .perform_bind (fun _ => pre) (fun _ _ result _ _ _ hgood hpre =>
    ⟨hgood.cons fun uid huid => hnew _ result uid hpre huid, hkeep result _ hpre⟩) hrest

theorem touches_spare (hc : c.Spares) (hkeep : ∀ result own, pre own → pre (⟨0, c, result⟩ :: own))
    (hrest : ∀ result, Touches setup s set pre (rest result) post) :
    Touches setup s set pre (invoke c >>= rest) post :=
  touches_call (fun own result uid _ hu => by
    rw [affects_of_spares hc] at hu
    cases hu) hkeep hrest

def Translated (s : Selected) (set live : Bytes) (own : List (Event sig)) : Prop :=
  ∀ ranges now, parseSequenceSet live = .ok ranges →
    SteadySince (s.named set) (listReads s.mailbox own) now → now.length ≤ maxMessageCount →
    ∀ uid ∈ selectUIDs ranges now, uid ∈ s.named set

theorem selectUIDs_nil (uids : List UInt32) : selectUIDs [] uids = [] := by
  have hnil : ∀ total i, selectFrom [] total i uids = [] := by
    induction uids with
    | nil => intro total i; rfl
    | cons uid rest ih => intro total i; exact ih total (i + 1)
  rw [selectUIDs, hnil, List.map_nil]

theorem seqToLive_touches (hsnap : s.snapOn = true) :
    Touches setup s set (· = []) (seqToLive s set)
      fun live own => ∀ text, live = .ok text → Translated s set text own := by
  unfold seqToLive
  rw [if_pos hsnap]
  split
  · exact .done fun _ _ _ h => by cases h
  · refine .done fun own _ text h ranges now hparse => ?_
    cases h
    obtain rfl : ranges = [] := by
      have hempty : parseSequenceSet [] = .ok [] := by decide
      cases hparse
      rfl
    intro _ _ uid hmem
    rw [selectUIDs_nil] at hmem
    cases hmem
  · rename_i ranges _ hranges
    have hnamed : s.named set = selectUIDs ranges s.snap := by rw [Selected.named, hranges]
    refine .perform_bind (fun live own => ∀ uids, live = .ok uids →
      listReads s.mailbox own = [uids] ∧ uids.Nodup) ?_ fun live => ?_
    · rintro w choice live w' _ hexec hgood hempty
      refine ⟨hgood.spare trivial, fun uids huids => ?_⟩
      rw [hempty]
      refine ⟨?_, ((world_books hexec).2 uids huids).1⟩
      subst huids
      simp [listReads, listRead]
    · cases live with
      | error e => exact .done fun _ _ _ h => by cases h
      | ok live =>
        refine .done fun own h text htext ranges now hparse hsteady hlen uid hmem => ?_
        cases htext
        obtain ⟨hreads, hnodup⟩ := h live rfl
        rw [hreads, hnamed] at hsteady
        rw [hnamed]
        exact mem_of_selected hsteady hnodup hlen hparse hmem

theorem readUIDs_touches :
    Touches setup s set (Translated s set live) (readUIDs s.mailbox) fun uids _ =>
      ∀ now ranges, uids = .ok now → parseSequenceSet live = .ok ranges →
        ∀ uid ∈ selectUIDs ranges now, uid ∈ s.named set := by
  refine .perform_bind (fun uids _ => ∀ now ranges, uids = .ok now → now.length ≤ maxMessageCount →
    parseSequenceSet live = .ok ranges → ∀ uid ∈ selectUIDs ranges now, uid ∈ s.named set) ?_
    fun uids => ?_
  · intro w choice uids w' hok hexec hgood htranslated
    refine ⟨hgood.spare trivial, fun now ranges hnow hlen hparse => ?_⟩
    subst hnow
    have hstep : exec setup 0 choice w.state (.getMessageUIDs s.mailbox) = some (.ok now, w'.state) :=
      (World.exec_eq_some.mp hexec).1
    refine htranslated ranges now hparse ?_ hlen
    rw [getMessageUIDs_ok hstep]
    exact hok rfl rfl
  · cases uids with
    | error e => exact .done fun _ _ now ranges h => by cases h
    | ok uids =>
      refine .done fun _ h now ranges hnow => ?_
      split_ifs at hnow with hlen
      cases hnow
      exact h uids ranges rfl (Nat.le_of_not_lt hlen)

theorem storeEach_touches (flags : List Bytes) (op : FlagOperation) {uids : List UInt32}
    (h : ∀ uid ∈ uids, uid ∈ s.named set) :
    Touches setup s set (fun _ => True) (storeEach s.mailbox flags op uids) fun _ _ => True := by
  induction uids with
  | nil => exact .skip
  | cons uid rest ih =>
    refine touches_call ?_ (fun _ _ h => h) fun _ => .bind (fun _ _ => True)
      (ih fun uid hmem => h uid (List.mem_cons_of_mem _ hmem)) fun _ => .skip
    intro own result u _ hu
    rcases result with e | _
    · cases hu
    simp only [affects, if_true, Option.some.injEq] at hu
    rw [← hu]
    exact h uid List.mem_cons_self

theorem storeFlags_touches (flags : List Bytes) (op : FlagOperation) :
    Touches setup s set (Translated s set live) (storeFlags s.mailbox live flags op)
      fun _ _ => True := by
  unfold storeFlags
  split
  · exact .done fun _ _ => trivial
  rename_i ranges hranges
  refine .bind _ readUIDs_touches fun uids => ?_
  rcases uids with e | uids
  · exact .done fun _ _ => trivial
  refine .entails (fun _ => True ∧ ∀ uid ∈ selectUIDs ranges uids, uid ∈ s.named set)
    (fun _ h => ⟨trivial, h uids ranges rfl hranges⟩) (.assuming fun hmeant => ?_)
  exact storeEach_touches _ op hmeant

section Copy

variable {dest : Bytes} {uids : List UInt32} {own : List (Event sig)} {program : Prog α}
  {uid : UInt32}

def RowsMade (dest : Bytes) (uids : List UInt32) (own : List (Event sig)) : Prop :=
  ∀ uid ∈ uids, (dest, uid) ∈ rowsStored own

theorem RowsMade.cons (event : Event sig) (h : RowsMade dest uids own) :
    RowsMade dest uids (event :: own) := by
  intro uid hmem
  unfold rowsStored
  rw [List.filterMap_cons]
  split
  · exact h uid hmem
  · exact List.mem_cons_of_mem _ (h uid hmem)

theorem touches_blobs (h : program.Calls Call.OnBlobs) :
    Touches setup s set (RowsMade dest uids) program fun _ => RowsMade dest uids :=
  .of_calls h fun c _ _ hc hgood hpre => ⟨hgood.spare (spares_of_onBlobs c hc), hpre.cons _⟩

theorem touches_storing (h : program.Calls Call.OnBlobs) :
    Touches setup s set (fun own => RowsMade dest uids own ∧ lastRead s.mailbox own = some uid)
      program fun _ own => RowsMade dest uids own ∧ lastRead s.mailbox own = some uid :=
  .of_calls h fun c result _ hc hgood hpre => ⟨hgood.spare (spares_of_onBlobs c hc),
    hpre.1.cons _, by rw [lastRead_cons (rowRead_of_onBlobs hc), hpre.2]⟩

def OneCopied (dest : Bytes) (uids : List UInt32) (copied : Except MailError (UInt32 × BlobRef))
    (own : List (Event sig)) : Prop :=
  RowsMade dest uids own ∧
    ∀ newUID ref, copied = .ok (newUID, ref) → (dest, newUID) ∈ rowsStored own

theorem RowsMade.failed (h : RowsMade dest uids own) (e : MailError) :
    OneCopied dest uids (.error e) own :=
  ⟨h, fun _ _ he => by cases he⟩

theorem OneCopied.cons {copied : Except MailError (UInt32 × BlobRef)} (event : Event sig)
    (h : OneCopied dest uids copied own) : OneCopied dest uids copied (event :: own) := by
  refine ⟨h.1.cons event, fun newUID ref he => ?_⟩
  have hmade : RowsMade dest [newUID] own := fun uid huid => by
    rw [List.mem_singleton.mp huid]
    exact h.2 newUID ref he
  exact hmade.cons event newUID (List.mem_singleton_self newUID)

theorem copyOne_touches (huid : uid ∈ s.named set) :
    Touches setup s set (RowsMade dest uids) (copyOne setup s.mailbox dest uid)
      (OneCopied dest uids) := by
  refine touches_spare trivial (fun _ _ h => h.cons _) fun _ => .bind (OneCopied dest uids) ?_
    fun copied => touches_spare trivial (fun _ _ h => h.cons _) fun _ => .done fun _ h => h
  refine .perform_bind (fun metadata own => RowsMade dest uids own ∧ ∀ value, metadata = .ok value →
    lastRead s.mailbox own = some uid) ?_ fun metadata => ?_
  · rintro w choice metadata w' _ _ hgood h
    refine ⟨hgood.spare trivial, h.cons _, fun value hvalue => ?_⟩
    subst hvalue
    simp [lastRead, rowRead]
  rcases metadata with e | metadata
  · exact .done fun _ h => h.1.failed _
  refine .entails (fun own => RowsMade dest uids own ∧ lastRead s.mailbox own = some uid)
    (fun _ h => ⟨h.1, h.2 _ rfl⟩) ?_
  refine touches_spare trivial (fun _ _ h => ⟨h.1.cons _, h.2⟩) fun data => ?_
  rcases data with e | data
  · exact .done fun _ h => h.1.failed _
  refine touches_spare trivial (fun _ _ h => ⟨h.1.cons _, h.2⟩) fun newUID => ?_
  rcases newUID with e | newUID
  · exact .done fun _ h => h.1.failed _
  refine .bind _ (touches_storing (storeBlob_calls (fun _ h => h) setup data))
    fun stored => ?_
  rcases stored with e | newID
  · exact .done fun _ h => h.1.failed _
  refine .perform_bind (fun written own => RowsMade dest uids own ∧
    (written = .ok () → (dest, newUID) ∈ rowsStored own)) ?_ fun written => ?_
  · rintro w choice written w' _ _ hgood h
    cases written with
    | error e =>
      exact ⟨hgood.cons fun _ hu => (by cases hu), h.1.cons _, fun he => by cases he⟩
    | ok _ =>
      refine ⟨hgood.cons fun u hu => ?_, h.1.cons _, fun _ => ?_⟩
      · rw [show affects s.mailbox (ownLog 0 w.log) _ _ =
          lastRead s.mailbox (ownLog 0 w.log) from rfl, h.2] at hu
        cases hu
        exact huid
      · exact List.mem_filterMap.mpr ⟨_, List.mem_cons_self, rfl⟩
  cases written with
  | error e =>
    refine .bind (fun _ => RowsMade dest uids) (.entails _ (fun _ h => h.1)
      (touches_blobs (releaseBlobsLocked_calls (fun _ h => h) _))) fun _ => ?_
    exact .done fun _ h => h.failed _
  | ok _ =>
    refine .done fun _ h => ⟨h.1, fun newUID' ref he => ?_⟩
    cases he
    exact h.2 rfl

theorem deleteMessages_touches :
    Touches setup s set (RowsMade dest uids) (deleteMessages dest uids) fun _ _ => True := by
  suffices h : ∀ rest, (∀ uid ∈ rest, uid ∈ uids) →
      Touches setup s set (RowsMade dest uids) (deleteMessages dest rest) fun _ _ => True from
    h uids fun _ h => h
  intro rest
  induction rest with
  | nil => exact fun _ => .done fun _ _ => trivial
  | cons uid rest ih =>
    intro hrest
    refine touches_call ?_ (fun _ _ h => h.cons _) fun _ =>
      ih fun u hu => hrest u (List.mem_cons_of_mem _ hu)
    intro own result u hmade hu
    cases result with
    | error e => cases hu
    | ok _ =>
      simp only [affects, hmade uid (hrest uid List.mem_cons_self), not_true, and_false] at hu
      cases hu

theorem copyEach_touches {copied : Copied} {rest : List UInt32}
    (hrest : ∀ uid ∈ rest, uid ∈ s.named set) (hsource : ∀ uid ∈ copied.source, uid ∈ s.named set) :
    Touches setup s set (RowsMade dest copied.dest) (copyEach setup s.mailbox dest copied rest)
      fun out _ => ∀ all, out = .ok all → ∀ uid ∈ all.source, uid ∈ s.named set := by
  induction rest generalizing copied with
  | nil =>
    refine .done fun _ _ all hall => ?_
    cases hall
    exact hsource
  | cons uid rest ih =>
    have huid := hrest uid List.mem_cons_self
    refine .bind _ (copyOne_touches huid) fun one => ?_
    cases one with
    | error e =>
      refine .bind (fun _ _ => True) (.entails _ (fun _ h => h.1) (.bind (fun _ _ => True)
        deleteMessages_touches fun _ => touches_of_spares
          (releaseBlobs_calls spares_of_onBlobs _))) fun _ => ?_
      exact .done fun _ _ all hall => by cases hall
    | ok one =>
      refine .entails _ (fun own h => ?_) (ih (fun u hu => hrest u (List.mem_cons_of_mem _ hu)) ?_)
      · intro u hu
        rcases List.mem_append.mp hu with hu | hu
        · exact h.1 u hu
        · rw [List.mem_singleton.mp hu]
          exact h.2 _ _ rfl
      · intro u hu
        rcases List.mem_append.mp hu with hu | hu
        · exact hsource u hu
        · rw [List.mem_singleton.mp hu]
          exact huid

theorem copyMessagesUIDs_touches {live : Bytes} :
    Touches setup s set (Translated s set live) (copyMessagesUIDs setup s.mailbox dest live)
      fun out _ => ∀ validity copied, out = .ok (validity, copied) →
        ∀ uid ∈ copied.source, uid ∈ s.named set := by
  unfold copyMessagesUIDs
  split
  · exact .done fun _ _ _ _ h => by cases h
  rename_i ranges hranges
  refine .bind _ readUIDs_touches fun uids => ?_
  rcases uids with e | uids
  · exact .done fun _ _ _ _ h => by cases h
  refine .entails (fun own => RowsMade dest [] own ∧
      ∀ uid ∈ selectUIDs ranges uids, uid ∈ s.named set)
    (fun _ h => ⟨fun _ hu => (by cases hu), h uids ranges rfl hranges⟩) (.assuming fun hmeant => ?_)
  have hnone : ∀ uid ∈ (Copied.mk [] [] []).source, uid ∈ s.named set := fun _ hu => by cases hu
  refine .bind _ (copyEach_touches hmeant hnone) fun copied => ?_
  rcases copied with e | copied
  · exact .done fun _ _ _ _ h => by cases h
  refine touches_spare trivial (fun _ _ h => h) fun validity => ?_
  cases validity with
  | error | ok =>
    refine .done fun _ h _ _ he => ?_
    cases he
    exact h copied rfl

end Copy

section Move

variable {uids : List UInt32}

theorem flagMoved_touches (h : ∀ uid ∈ uids, uid ∈ s.named set) :
    Touches setup s set (fun _ => True) (flagMoved s.mailbox uids) fun _ _ => True := by
  induction uids with
  | nil => exact .skip
  | cons uid rest ih =>
    have ih := ih fun u hu => h u (List.mem_cons_of_mem _ hu)
    refine touches_spare trivial (fun _ _ h => h) fun metadata => ?_
    rcases metadata with e | metadata
    · exact .skip
    dsimp only
    split_ifs
    · exact ih
    refine touches_call ?_ (fun _ _ h => h) fun written => ?_
    · intro own result u _ hu
      rcases result with e | _
      · cases hu
      simp only [affects, if_true, Option.some.injEq] at hu
      rw [← hu]
      exact h uid List.mem_cons_self
    · cases written with
      | error e => exact .skip
      | ok _ => exact ih

theorem expungeEach_touches {targets : List (Nat × UInt32)}
    (h : ∀ target ∈ targets, target.2 ∈ s.named set) :
    Touches setup s set (fun _ => True) (expungeEach s.mailbox targets) fun _ _ => True := by
  induction targets with
  | nil => exact .skip
  | cons target rest ih =>
    have ih := ih fun u hu => h u (List.mem_cons_of_mem _ hu)
    refine touches_spare trivial (fun _ _ h => h) fun metadata => ?_
    rcases metadata with e | metadata
    · exact ih
    dsimp only
    split_ifs
    · refine touches_call ?_ (fun _ _ h => h) fun deleted => ?_
      · intro own result u _ hu
        rcases result with e | _
        · cases hu
        simp only [affects] at hu
        split_ifs at hu
        cases hu
        exact h target List.mem_cons_self
      · cases deleted with
        | error e => exact ih
        | ok _ => exact .bind _ ih fun _ => .skip
    · exact ih

theorem mem_of_positions {i : Nat} {target : Nat × UInt32} (h : target ∈ positions i uids) :
    target.2 ∈ uids := by
  induction uids generalizing i with
  | nil => cases h
  | cons uid rest ih =>
    rcases List.mem_cons.mp h with rfl | h
    · exact List.mem_cons_self
    · exact List.mem_cons_of_mem _ (ih h)

theorem expungeUIDs_touches (h : ∀ uid ∈ uids, uid ∈ s.named set) :
    Touches setup s set (fun _ => True) (expungeUIDs s.mailbox uids) fun _ _ => True := by
  refine touches_spare trivial (fun _ _ h => h) fun _ => touches_spare trivial (fun _ _ h => h)
    fun _ => .bind _ (expungeEach_touches fun target ht => h _ (mem_of_positions ht)) fun _ => ?_
  exact touches_of_spares (.bind (releaseBlobs_calls spares_of_onBlobs _) fun _ => .perform trivial)

theorem touches_composes : Composes Call.Spares fun _ program =>
    Touches setup s set (fun _ => True) program fun _ _ => True where
  reads := spares_of_reads
  looking := touches_of_spares
  bind hp hr := .bind _ hp hr

theorem moveLive_touches {dest live : Bytes} :
    Touches setup s set (Translated s set live) (moveLive setup s.mailbox dest live)
      fun _ _ => True := by
  refine .bind (fun out _ => ∀ validity copied, out = .ok (validity, copied) →
    ∀ uid ∈ copied.source, uid ∈ s.named set) (.bind _ copyMessagesUIDs_touches fun copied => ?_)
    fun moved => ?_
  · cases copied with
    | error e => exact .done fun _ _ _ _ h => by cases h
    | ok copied =>
      refine .entails (fun _ => True ∧ ∀ uid ∈ copied.2.source, uid ∈ s.named set)
        (fun _ h => ⟨trivial, h _ _ rfl⟩) (.assuming fun hmeant => ?_)
      refine .bind _ (flagMoved_touches hmeant) fun flagged => ?_
      rcases flagged with e | _
      · exact .done fun _ _ _ _ h => by cases h
      refine .done fun _ _ _ _ h => ?_
      cases h
      exact hmeant
  · cases moved with
    | error e => exact .done fun _ _ => trivial
    | ok moved =>
      refine .entails (fun _ => True ∧ ∀ uid ∈ moved.2.source, uid ∈ s.named set)
        (fun _ h => ⟨trivial, h _ _ rfl⟩) (.assuming fun hmeant => ?_)
      dsimp only
      split_ifs
      · exact .skip
      · refine touches_composes.expungeUIDSubset fun uids hsub => ?_
        exact expungeUIDs_touches fun uid huid => hmeant uid (hsub huid)

end Move

theorem Translated.cons (h : Translated s set live own)
    (hread : listRead s.mailbox event.call event.result = none) :
    Translated s set live (event :: own) := by
  have hsame : listReads s.mailbox (event :: own) = listReads s.mailbox own :=
    List.filterMap_cons_none hread
  intro ranges now hparse hsteady
  rw [hsame] at hsteady
  exact h ranges now hparse hsteady

theorem copyDestination_touches {dest : Bytes} :
    Touches setup s set (Translated s set live) (copyDestination dest)
      fun _ => Translated s set live := by
  unfold copyDestination
  split_ifs
  · exact .skip
  · refine touches_spare trivial (fun _ _ h => h.cons rfl) fun listed => ?_
    cases listed <;> exact .skip

theorem Command.program_touches (hsnap : s.snapOn = true) (command : Command) :
    Touches setup s command.set (· = []) (command.program setup s) fun _ _ => True := by
  cases command with
  | store set flags op silent =>
    refine .bind (fun _ _ => True) ?_ fun _ => .skip
    unfold handleStore
    split_ifs
    · exact .done fun _ _ => trivial
    · unfold storeSel
      refine .bind (fun _ _ => True) (.bind _ (seqToLive_touches hsnap) fun live => ?_)
        fun stored => ?_
      · cases live with
        | error e => exact .done fun _ _ => trivial
        | ok live => exact .entails _ (fun _ h => h live rfl) (storeFlags_touches flags op)
      · cases stored with
        | error e => exact .done fun _ _ => trivial
        | ok _ =>
          refine touches_of_spares (.bind ?_ fun _ => trivial)
          exact fetchUnlessSilent_calls spares_of_reads s set silent
    · exact .done fun _ _ => trivial
  | copy set dest =>
    refine .bind (fun _ _ => True) ?_ fun _ => .skip
    unfold handleCopy copyTo
    split_ifs
    · refine .bind _ (seqToLive_touches hsnap) fun live => ?_
      rcases live with e | live
      · exact .done fun _ _ => trivial
      refine .entails _ (fun _ h => h live rfl) (.bind _ copyDestination_touches fun found => ?_)
      cases found with
      | error reply => exact .done fun _ _ => trivial
      | ok _ => exact .bind _ copyMessagesUIDs_touches fun _ => .done fun _ _ => trivial
    · exact .done fun _ _ => trivial
  | move set dest =>
    refine .bind (fun _ _ => True) ?_ fun _ => .skip
    unfold handleMove moveTo
    split_ifs
    · exact .done fun _ _ => trivial
    · refine .bind _ (seqToLive_touches hsnap) fun live => ?_
      rcases live with e | live
      · exact .done fun _ _ => trivial
      refine .entails _ (fun _ h => h live rfl) (.bind _ copyDestination_touches fun found => ?_)
      cases found with
      | error reply => exact .done fun _ _ => trivial
      | ok _ =>
        refine .bind _ moveLive_touches fun moved => ?_
        cases moved <;> exact .done fun _ _ => trivial
    · exact .done fun _ _ => trivial

end Session

-- In every interleaving with any other threads in which the positions do not
-- move between the translation and its use, only messages are touched that the
-- client means.
theorem onlyNamed_of_unshifted (setup : Setup) (state : State) (s : Selected) (command : Command)
    (others : List (Prog Unit)) (cfg : Config sig State Unit) (hsnap : s.snapOn = true)
    (hrun : Run (machine setup) (Unshifted setup s command.set)
      (commandPool setup state s command others) cfg) : OnlyNamed s command cfg.world := by
  refine hrun.acts (TouchesNamed s command.set) (fun _ _ _ h => by cases h)
    (fun i program hi => ?_) 0 rfl
  cases i with
  | zero =>
    cases hi
    exact Command.program_touches hsnap command
  | succ i =>
    refine Acts.entails (fun _ => True) (fun _ _ => trivial) (.of_calls (program.calls_true) ?_)
    exact fun _ _ _ _ _ _ => ⟨fun h => absurd h (Nat.succ_ne_zero i), trivial⟩

def unshiftedSchedule : List (Nat × Choice) :=
  List.replicate 2 (0, demoChoice) ++ List.replicate 5 (1, demoChoice) ++ [(0, demoChoice)]

theorem onlyNamed_store_expunge : ∃ cfg,
    Run (machine demoSetup) (Unshifted demoSetup shiftedView shiftedCommand.set)
      (commandPool demoSetup shiftedState shiftedView shiftedCommand
        ([[.expungeReport inboxName]].map (Operation.session demoSetup))) cfg ∧
    affected inboxName (ownLog 0 cfg.world.log) = [1] ∧
    OnlyNamed shiftedView shiftedCommand cfg.world := by
  have hrun : ((commandPool demoSetup shiftedState shiftedView shiftedCommand
      ([[.expungeReport inboxName]].map (Operation.session demoSetup))).replay (machine demoSetup)
      (Unshifted demoSetup shiftedView shiftedCommand.set) unshiftedSchedule).any (fun cfg =>
        decide (affected inboxName (ownLog 0 cfg.world.log) = [1])) = true := by
    decide
  obtain ⟨cfg, hcfg, hfact⟩ := (Option.any_eq_true _ _).mp hrun
  exact ⟨cfg, .of_replay hcfg, of_decide_eq_true hfact,
    onlyNamed_of_unshifted demoSetup shiftedState shiftedView shiftedCommand _ cfg rfl
      (.of_replay hcfg)⟩

end UMail.Mailstore
