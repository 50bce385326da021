import UMail.Imap.SeqView

namespace UMail.Imap

variable {recent : Nat}

open UMail.Storage
open Sequence (RunAll)

abbrev Ascending (uids : List UInt32) : Prop := uids.Pairwise (· < ·)

theorem Ascending.nodup {l : List UInt32} (h : Ascending l) : l.Nodup := by
  refine List.Pairwise.imp ?_ h
  rintro a b hlt rfl
  exact UInt32.lt_irrefl a hlt

theorem Ascending.eq_of_mem_iff {l l' : List UInt32} (h : Ascending l) (h' : Ascending l')
    (hmem : ∀ uid, uid ∈ l ↔ uid ∈ l') : l = l' := by
  have hperm := (List.perm_ext_iff_of_nodup h.nodup h'.nodup).mpr hmem
  exact hperm.eq_of_pairwise
    (fun a b _ _ hab hba => False.elim (UInt32.lt_irrefl a (UInt32.lt_trans hab hba))) h h'

theorem mailboxUIDs_ascending (db : Database) (user mailbox : Bytes) :
    Ascending (mailboxUIDs db user mailbox) := by
  have h := Std.ExtTreeMap.ordered_keys (t := (db.messagesOf user mailbox).getD ∅)
  exact h.imp fun hlt => compareOfLessAndEq_eq_lt.mp hlt

section SnapSeq

variable {snap : List UInt32}

private theorem ascending_getElem {i j : Nat} {uid uid' : UInt32} (h : Ascending snap) (hij : i < j)
    (hi : snap[i]? = some uid) (hj : snap[j]? = some uid') : uid < uid' := by
  obtain ⟨hi', rfl⟩ := List.getElem?_eq_some_iff.mp hi
  obtain ⟨hj', rfl⟩ := List.getElem?_eq_some_iff.mp hj
  exact List.pairwise_iff_getElem.mp h i j hi' hj' hij

-- On an ascending snapshot the search stops exactly at the position of the UID.
theorem snapSeq_eq_some_iff (h : Ascending snap) {uid seq : UInt32} :
    snapSeq snap uid = some seq ↔
      ∃ i, snap[i]? = some uid ∧ seq = UInt32.ofNat (i + 1) := by
  let f : Nat → Bool := fun i => decide (snap.getD i 0 ≥ uid)
  have hget : ∀ {k : Nat} {v}, snap[k]? = some v → snap.getD k 0 = v := fun hk => by
    rw [List.getD_eq_getElem?_getD, hk, Option.getD_some]
  have hmono : ∀ i j, i ≤ j → j < snap.length → f i = true → f j = true := by
    intro i j hij hj hi
    obtain rfl | hlt := Nat.eq_or_lt_of_le hij
    · exact hi
    · have hj' := List.getElem?_eq_getElem hj
      have hi' := List.getElem?_eq_getElem (Nat.lt_trans hlt hj)
      have hasc := ascending_getElem h hlt hi' hj'
      simp only [f, hget hi', hget hj', decide_eq_true_eq] at hi ⊢
      exact UInt32.le_trans hi (UInt32.le_of_lt hasc)
  obtain ⟨_, hbelow, hat⟩ := BinarySearch.search_spec hmono
  unfold snapSeq
  constructor
  · intro hs
    dsimp only at hs
    split_ifs at hs with hfound
    cases hs
    exact ⟨_, hfound, rfl⟩
  · rintro ⟨i, hi, rfl⟩
    have hlen := (List.getElem?_eq_some_iff.mp hi).1
    have hfi : f i = true := by simp [f, hi]
    -- The search ends neither after nor before the position.
    have hle : BinarySearch.search snap.length f ≤ i := by
      by_contra hgt
      rw [hbelow i (Nat.lt_of_not_le hgt)] at hfi
      cases hfi
    have hge : i ≤ BinarySearch.search snap.length f := by
      by_contra hlt
      have hlt := Nat.lt_of_not_le hlt
      have hpos := Nat.lt_trans hlt hlen
      have hsearch := List.getElem?_eq_getElem hpos
      have hval := hat hpos
      have hasc := ascending_getElem h hlt hsearch hi
      simp only [f, hget hsearch, decide_eq_true_eq] at hval
      exact UInt32.lt_irrefl _ (UInt32.lt_of_le_of_lt hval hasc)
    have he : BinarySearch.search snap.length f = i := Nat.le_antisymm hle hge
    rw [he, if_pos hi]

end SnapSeq

theorem splitSnap_fst (live : List UInt32) (i : Nat) (snap : List UInt32) :
    (splitSnap live i snap).1 = snap.filter (live.contains ·) := by
  induction snap generalizing i with
  | nil => rfl
  | cons uid rest ih =>
    have ih := ih (i + 1)
    simp only [splitSnap, List.filter_cons]
    split_ifs with hlive
    · exact congrArg (uid :: ·) ih
    · exact ih

-- Expunging the highest number first keeps the lower ones valid, so what is
-- left is what the session keeps. The prefix stands for the positions already
-- passed.
theorem clientView_expunges (answers live passed snap : List UInt32) :
    clientView answers (passed ++ snap)
        ((splitSnap live passed.length snap).2.reverse.map fun i => .expungeData (i + 1)) =
      passed ++ (splitSnap live passed.length snap).1 := by
  induction snap generalizing passed with
  | nil => rfl
  | cons uid rest ih =>
    have ih := ih (passed ++ [uid])
    simp only [List.append_assoc, List.singleton_append, List.length_append,
      List.length_singleton] at ih
    simp only [splitSnap]
    split_ifs with hlive
    · exact ih
    · simp only [List.reverse_cons, List.map_append, clientView, List.foldl_append] at ih ⊢
      rw [ih]
      simp [clientApply, List.eraseIdx_append_of_length_le]

theorem clientView_append (answers client : List UInt32) (responses responses' : List Untagged) :
    clientView answers client (responses ++ responses') =
      clientView answers (clientView answers client responses) responses' := List.foldl_append

-- Whatever the live list is, the client ends with the session's own list.
theorem clientView_syncWith (live snap : List UInt32) (recent : Nat) :
    clientView (syncWith live snap recent).snap snap (syncWith live snap recent).responses =
      (syncWith live snap recent).snap := by
  have hexpunged := fun answers => clientView_expunges answers live [] snap
  simp only [List.nil_append, List.length_nil] at hexpunged
  unfold syncWith
  dsimp only
  split_ifs with hadded
  · rw [hexpunged, hadded, List.append_nil]
  · rw [clientView_append, hexpunged]
    simp [clientView, clientApply]

-- Every UID that became visible is above all the UIDs the session keeps.
def InOrder (live snap : List UInt32) : Prop :=
  ∀ uid ∈ live, uid ∉ snap → ∀ known ∈ snap, known ∈ live → known < uid

-- The lists are searched, not the whole type of UIDs.
instance (live snap : List UInt32) : Decidable (InOrder live snap) :=
  have (uid : UInt32) : Decidable (∀ known ∈ snap, known ∈ live → known < uid) :=
    List.decidableBAll (fun known => known ∈ live → known < uid) snap
  List.decidableBAll (fun uid => uid ∉ snap → ∀ known ∈ snap, known ∈ live → known < uid) live

theorem syncWith_snap (live snap : List UInt32) (recent : Nat) :
    (syncWith live snap recent).snap =
      snap.filter (live.contains ·) ++ live.filter fun uid => !snap.contains uid := by
  have hadded : (live.filter fun uid => !(snap.filter (live.contains ·)).contains uid) =
      live.filter fun uid => !snap.contains uid := by
    refine List.filter_congr fun uid hu => ?_
    simp [hu]
  unfold syncWith
  dsimp only
  rw [splitSnap_fst, hadded]
  split_ifs <;> rfl

theorem mem_syncWith_snap {live snap : List UInt32} {uid : UInt32} :
    uid ∈ (syncWith live snap recent).snap ↔ uid ∈ live := by
  rw [syncWith_snap]
  by_cases hs : uid ∈ snap <;> simp [hs]

theorem syncWith_ascending {live snap : List UInt32} (hlive : Ascending live)
    (hsnap : Ascending snap) (horder : InOrder live snap) :
    Ascending (syncWith live snap recent).snap := by
  rw [syncWith_snap]
  refine List.pairwise_append.mpr ⟨hsnap.filter _, hlive.filter _, ?_⟩
  intro known hknown uid hnew
  simp only [List.mem_filter, Bool.not_eq_true', List.contains_eq_mem,
    decide_eq_false_iff_not, decide_eq_true_eq] at hknown hnew
  exact horder uid hnew.1 hnew.2 known hknown.1 hknown.2

-- The session adopts the live list exactly when the new UIDs come last.
theorem syncWith_snap_eq_iff {live snap : List UInt32} (recent : Nat) (hlive : Ascending live)
    (hsnap : Ascending snap) :
    (syncWith live snap recent).snap = live ↔ InOrder live snap := by
  constructor
  · intro he uid hu hnew known hk hkl
    have hasc : Ascending (syncWith live snap recent).snap := he.symm ▸ hlive
    rw [syncWith_snap] at hasc
    exact (List.pairwise_append.mp hasc).2.2 known (by simp [hk, hkl]) uid (by simp [hu, hnew])
  · intro horder
    exact (syncWith_ascending hlive hsnap horder).eq_of_mem_iff hlive
      fun _ => mem_syncWith_snap

def Session.syncTarget (s : Session) : Option SelectedMailbox :=
  if s.snapOn && s.inSelectedState then s.selected else none

def View.live (view : View) (mailbox : SelectedMailbox) : List UInt32 :=
  mailboxUIDs view.db view.session.user mailbox.name

variable {mailbox : SelectedMailbox} {s : Session} {view : View}

theorem syncSelected_of_target (db : Database) (h : s.syncTarget = some mailbox) :
    (s.syncSelected db false).1 =
        (syncWith (mailboxUIDs db s.user mailbox.name) s.snap mailbox.recent).responses ∧
      (s.syncSelected db false).2.snap =
        (syncWith (mailboxUIDs db s.user mailbox.name) s.snap mailbox.recent).snap := by
  unfold Session.syncTarget at h
  split_ifs at h with hactive
  rw [Bool.and_eq_true] at hactive
  simp [Session.syncSelected, h, hactive.1, hactive.2]

theorem syncSelected_snap_of_idle {db : Database} {fault : Bool}
    (h : fault = true ∨ s.syncTarget = none) : (s.syncSelected db fault).2.snap = s.snap := by
  unfold Session.syncSelected
  split
  · rfl
  rename_i mailbox hm
  split_ifs with hidle
  · rfl
  simp only [Bool.or_eq_true, Bool.not_eq_true', not_or,
    Bool.not_eq_true] at hidle
  rcases h with hf | hnone
  · rw [hf] at hidle
    cases hidle.2
  · simp [Session.syncTarget, hidle.1.1, hidle.1.2, hm] at hnone

-- A client that applies what one call announces ends with the session's new
-- list, and that list is the one the call has read.
structure SyncCorrect (view : View) (mailbox : SelectedMailbox) : Prop where
  client : clientView (view.session.syncSelected view.db false).2.snap view.session.snap
    (view.session.syncSelected view.db false).1 = (view.session.syncSelected view.db false).2.snap
  live : (view.session.syncSelected view.db false).2.snap = view.live mailbox

structure ViewSafe (start : View) (events : List Event) : Prop where
  synced : ∀ before after, events = before ++ .sync false :: after → ∀ mailbox,
    (Sequence.run Event.apply before start).session.syncTarget = some mailbox →
      SyncCorrect (Sequence.run Event.apply before start) mailbox
  ascending : ∀ before after, events = before ++ after →
    Ascending (Sequence.run Event.apply before start).session.snap
  located : ∀ before after, events = before ++ after → ∀ uid seq,
    snapSeq (Sequence.run Event.apply before start).session.snap uid = some seq ↔
      ∃ i, (Sequence.run Event.apply before start).session.snap[i]? = some uid ∧
        seq = UInt32.ofNat (i + 1)

-- Other sessions may do anything; only what a synchronisation finds is
-- restricted.
def Orderly (view : View) : Event → Prop
  | .sync false => ∀ mailbox ∈ view.session.syncTarget,
      InOrder (view.live mailbox) view.session.snap
  | _ => True

instance (view : View) : (event : Event) → Decidable (Orderly view event)
  | .sync false => inferInstanceAs (Decidable (∀ mailbox ∈ view.session.syncTarget,
      InOrder (view.live mailbox) view.session.snap))
  | .sync true | .storage _ | .select _ _ _ | .deselect => isTrue trivial

theorem event_ascending {event : Event} (horderly : Orderly view event)
    (h : Ascending view.session.snap) : Ascending (event.apply view).session.snap := by
  cases event with
  | storage step => exact h
  | select name recent fault =>
    simp only [Event.apply, Session.select, Session.snapInit]
    split_ifs
    · exact List.Pairwise.nil
    · exact mailboxUIDs_ascending _ _ _
  | deselect => exact List.Pairwise.nil
  | sync fault =>
    simp only [Event.apply]
    rcases htarget : view.session.syncTarget with _ | mailbox
    · rwa [syncSelected_snap_of_idle (.inr htarget)]
    cases fault with
    | true => rwa [syncSelected_snap_of_idle (.inl rfl)]
    | false =>
      rw [(syncSelected_of_target view.db htarget).2]
      exact syncWith_ascending (mailboxUIDs_ascending _ _ _) h
        (horderly mailbox htarget)

theorem syncCorrect_iff (htarget : view.session.syncTarget = some mailbox)
    (h : Ascending view.session.snap) :
    SyncCorrect view mailbox ↔ InOrder (view.live mailbox) view.session.snap := by
  obtain ⟨hresponses, hsnap⟩ := syncSelected_of_target view.db htarget
  have hiff := syncWith_snap_eq_iff mailbox.recent
    (mailboxUIDs_ascending view.db view.session.user mailbox.name) h
  constructor
  · intro hcorrect
    exact hiff.mp (hsnap ▸ hcorrect.live)
  · intro horder
    refine ⟨?_, hsnap.trans (hiff.mpr horder)⟩
    rw [hresponses, hsnap]
    exact clientView_syncWith _ _ _

-- Two UIDs are handed out, the second message becomes visible first, and the
-- session sees the other one only after it.
def lateArrival : List Event :=
  let env : Env := ⟨1700000000, false, false⟩
  let store (uid : UInt32) : Event :=
    .storage ⟨.storeMessageMetadata (bytes "ann") (bytes "INBOX") uid (some .empty), env⟩
  [.storage ⟨.getNextUID (bytes "ann") (bytes "INBOX"), env⟩,
   .storage ⟨.getNextUID (bytes "ann") (bytes "INBOX"), env⟩,
   store 2, .select (bytes "INBOX") 0 false, store 1, .sync false]

def freshView : View := ⟨.empty, ⟨bytes "ann", none, false, [], false⟩⟩

theorem viewSafe_fails_late_arrival : ¬ ViewSafe freshView lateArrival := by
  intro h
  have hasc := h.ascending lateArrival [] (by simp)
  revert hasc
  decide

-- Every synchronisation is right, and every snapshot ascending, exactly in the
-- runs in which new UIDs become visible above the known ones.
theorem viewSafe_iff_orderly (start : View) (hstart : Ascending start.session.snap)
    (events : List Event) :
    ViewSafe start events ↔ RunAll Event.apply Orderly events start := by
  constructor
  · intro hsafe
    refine RunAll.of_forall fun before event after he => ?_
    match event with
    | .sync false =>
      intro mailbox htarget
      exact (syncCorrect_iff htarget (hsafe.ascending before _ he)).mp
        (hsafe.synced before after he mailbox htarget)
    | .sync true | .storage _ | .select _ _ _ | .deselect => trivial
  · intro hrun
    have hascending : ∀ before after, events = before ++ after →
        Ascending (Sequence.run Event.apply before start).session.snap := by
      rintro before after rfl
      exact RunAll.invariant (fun view : View => Ascending view.session.snap)
        (fun view event horderly h => event_ascending horderly h) (RunAll.append.mp hrun).1 hstart
    refine ⟨fun before after he mailbox htarget => ?_, hascending, fun before after he uid seq => ?_⟩
    · rw [syncCorrect_iff htarget (hascending before _ he)]
      rw [he] at hrun
      exact (RunAll.append.mp hrun).2.1 mailbox htarget
    · exact snapSeq_eq_some_iff (hascending before after he)

-- The older of two messages goes while a third one comes.
def expungedInOrder : List Event :=
  let env : Env := ⟨0, false, false⟩
  let store (uid : UInt32) : Event :=
    .storage ⟨.storeMessageMetadata (bytes "ann") (bytes "INBOX") uid (some .empty), env⟩
  [store 3, store 7, .select (bytes "INBOX") 0 false,
   .storage ⟨.deleteMessage (bytes "ann") (bytes "INBOX") 3, env⟩, store 9, .sync false]

theorem viewSafe_expunge_sync : ViewSafe freshView expungedInOrder ∧
    (Sequence.run Event.apply expungedInOrder freshView).session.snap = [7, 9] :=
  ⟨(viewSafe_iff_orderly freshView List.Pairwise.nil _).mpr (by decide), by decide⟩

end UMail.Imap
