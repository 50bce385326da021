import UMail.Mailstore.Move
import Mathlib.Data.List.Nodup

namespace UMail.Mailstore

variable {c : Call} {result : c.Result}

open Concurrency UMail.Storage UMail.Db UMail.Imap

def MoveCommand.selection (move : MoveCommand) (uids : List UInt32) : List UInt32 :=
  match parseSequenceSet move.seqSet with
  | .error _ => []
  | .ok ranges => selectUIDs ranges uids

section Selections

variable (source : Bytes) (moves : List MoveCommand) (thread : Nat)

def selectionOf (uids : List UInt32) : List UInt32 :=
  (moves[thread]?.map (·.selection uids)).getD []

def selected (own : List (Event sig)) : List UInt32 :=
  ((firstRead source own).map (selectionOf moves thread)).getD []

end Selections

def Untaken (source : Bytes) (moves : List MoveCommand) (log : List (Event sig)) (thread : Nat)
    (uids : List UInt32) : Prop :=
  ∀ uid ∈ uids, ∀ other < moves.length, other ≠ thread →
    uid ∉ selected source moves other (ownLog other log)

-- The list is searched, not the whole type of UIDs.
instance (source : Bytes) (moves : List MoveCommand) (log : List (Event sig)) (thread : Nat)
    (uids : List UInt32) : Decidable (Untaken source moves log thread uids) :=
  List.decidableBAll (fun uid => ∀ other < moves.length, other ≠ thread →
    uid ∉ selected source moves other (ownLog other log)) uids

-- A MOVE takes no message that another one has taken, and a row is written
-- back only while it is there.
def Apart (setup : Setup) (source : Bytes) (moves : List MoveCommand) (w : World sig State)
    (thread : Nat) (c : Call) (_ : Choice) : Prop :=
  match c with
  | .getMessageUIDs mailbox => mailbox = source → firstRead source (ownLog thread w.log) = none →
      Untaken source moves w.log thread
        (selectionOf moves thread (w.state.db.getMessageUIDs setup.user source))
  | .updateMessageMetadata mailbox uid _ => (w.state.db.row setup.user mailbox uid).isSome
  | _ => True

instance (setup : Setup) (source : Bytes) (moves : List MoveCommand) (w : World sig State) (thread : Nat)
    (c : Call) (choice : Choice) : Decidable (Apart setup source moves w thread c choice) := by
  apply @Call.casesOn (fun c => Decidable (Apart setup source moves w thread c choice)) c
  case getMessageUIDs => exact fun _ => inferInstanceAs (Decidable (_ = _ → _ = _ → Untaken _ _ _ _ _))
  case updateMessageMetadata => exact fun _ _ _ => inferInstanceAs (Decidable (_ = true))
  all_goals
    intros
    exact isTrue trivial

theorem ExpungeCommand.session_calls {allowed : Call → Prop}
    (hexpunges : Expunges allowed fun _ program => program.Calls allowed) (source : Bytes)
    (commands : List ExpungeCommand) : (session source commands).Calls allowed := by
  induction commands with
  | nil => trivial
  | cons command rest ih =>
    refine .bind ?_ fun _ => ih
    cases command with
    | report => exact .bind (hexpunges.expungeReport source) fun _ => trivial
    | subset uids =>
      refine .bind (hexpunges.expungeUIDSubset fun uids _ => ?_) fun _ => trivial
      exact hexpunges.expungeUIDs source uids

def Call.Storeless : Call → Prop
  | .storeMessageMetadata _ _ _ => False
  | _ => True

theorem storeless_of_reads (c : Call) (h : c.Reads) : c.Storeless := by
  cases c
  case storeMessageMetadata => exact False.elim h
  all_goals trivial

theorem storeless_of_onBlobs (c : Call) (h : c.OnBlobs) : c.Storeless := by
  cases c
  case storeMessageMetadata => exact False.elim h
  all_goals trivial

theorem storeless_expunges : Expunges Call.Storeless fun _ program =>
    program.Calls Call.Storeless :=
  expunges_calls storeless_of_onBlobs storeless_of_reads fun _ _ => trivial

theorem rowStored_of_storeless (h : c.Storeless) : rowStored c result = none := by
  cases c
  case storeMessageMetadata => exact False.elim h
  all_goals rfl

theorem rowRead_of_onBlobs (h : c.OnBlobs) {source : Bytes} : rowRead source c result = none := by
  cases c
  case getMessageMetadata => exact False.elim h
  all_goals rfl

variable {source : Bytes} {moves : List MoveCommand} {setup : Setup} {state : State}
  {expunges : List (List ExpungeCommand)}

theorem selected_of_length_le {thread : Nat} (h : moves.length ≤ thread) (own : List (Event sig)) :
    selected source moves thread own = [] := by
  unfold selected selectionOf
  rw [List.getElem?_eq_none h]
  cases firstRead source own <;> rfl

section History

variable {source : Bytes} {moves : List MoveCommand} {thread : Nat} {event : Event sig}
  {own : List (Event sig)}

theorem firstRead_cons {uids : List UInt32} (h : firstRead source own = some uids) :
    firstRead source (event :: own) = some uids := by
  rw [firstRead, h, Option.some_or]

theorem copiesMade_cons (h : rowStored event.call event.result = none) :
    copiesMade source (event :: own) = copiesMade source own := by
  rw [copiesMade, h]

theorem lastRead_cons (h : rowRead source event.call event.result = none) :
    lastRead source (event :: own) = lastRead source own := by
  rw [lastRead, h, Option.none_or]

def CopiesOwn (source : Bytes) (moves : List MoveCommand) (thread : Nat) (own : List (Event sig)) :
    Prop :=
  ((copiesMade source own).map CopyMade.uid).Nodup ∧
    ∀ copy ∈ copiesMade source own, copy.uid ∈ selected source moves thread own

theorem CopiesOwn.cons (h : CopiesOwn source moves thread own)
    (hquiet : rowStored event.call event.result = none) :
    CopiesOwn source moves thread (event :: own) := by
  unfold CopiesOwn
  rw [copiesMade_cons hquiet]
  refine ⟨h.1, fun copy hcopy => ?_⟩
  have htaken := h.2 copy hcopy
  cases hfirst : firstRead source own with
  | none => simp [selected, hfirst] at htaken
  | some uids => simpa only [selected, hfirst, firstRead_cons hfirst] using htaken

end History

theorem selectFrom_sublist (ranges : List SeqRange) (total : UInt32) (i : Nat)
    (uids : List UInt32) : ((selectFrom ranges total i uids).map Prod.snd).Sublist uids := by
  induction uids generalizing i with
  | nil => exact .slnil
  | cons uid rest ih =>
    unfold selectFrom
    split_ifs
    · exact (ih (i + 1)).cons_cons uid
    · exact (ih (i + 1)).cons uid

section Moving

variable {setup : Setup} {source : Bytes} {moves : List MoveCommand} {thread : Nat} {α : Type}
  {program : Prog α} {uids done : List UInt32} {own : List (Event sig)} {event : Event sig}
  {move : MoveCommand}

abbrev Moves (setup : Setup) (source : Bytes) (moves : List MoveCommand) (thread : Nat)
    (pre : List (Event sig) → Prop) (program : Prog α) (post : α → List (Event sig) → Prop) : Prop :=
  Acts (machine setup) (Apart setup source moves) (CopiesOwn source moves) thread pre program post

theorem moves_storeless (h : program.Calls Call.Storeless) :
    Moves setup source moves thread (fun _ => True) program fun _ _ => True :=
  .of_calls h fun _ _ _ hc hgood _ => ⟨hgood.cons (rowStored_of_storeless hc), trivial⟩

theorem moves_quiet {c : Call} {pre : List (Event sig) → Prop} {rest : c.Result → Prog α}
    {post : α → List (Event sig) → Prop} (hc : c.Storeless)
    (hkeep : ∀ result own, pre own → pre (⟨thread, c, result⟩ :: own))
    (hrest : ∀ result, Moves setup source moves thread pre (rest result) post) :
    Moves setup source moves thread pre (invoke c >>= rest) post :=
  .perform_bind (fun _ => pre) (fun _ _ result _ _ _ hgood hpre =>
    ⟨hgood.cons (rowStored_of_storeless hc), hkeep result _ hpre⟩) hrest

def Copying (source : Bytes) (uids done : List UInt32) (own : List (Event sig)) : Prop :=
  firstRead source own = some uids ∧ (copiesMade source own).map CopyMade.uid = done.reverse

theorem Copying.cons (h : Copying source uids done own)
    (hquiet : rowStored event.call event.result = none) :
    Copying source uids done (event :: own) :=
  ⟨firstRead_cons h.1, by rw [copiesMade_cons hquiet, h.2]⟩

def Looking (source : Bytes) (uids done : List UInt32) (uid : UInt32) (own : List (Event sig)) :
    Prop :=
  Copying source uids done own ∧ lastRead source own = some uid

theorem Looking.cons {uid : UInt32} (h : Looking source uids done uid own)
    (hquiet : rowStored event.call event.result = none)
    (hread : rowRead source event.call event.result = none) :
    Looking source uids done uid (event :: own) :=
  ⟨h.1.cons hquiet, by rw [lastRead_cons hread, h.2]⟩

theorem moves_blobs {uid : UInt32} (h : program.Calls Call.OnBlobs) :
    Moves setup source moves thread (Looking source uids done uid) program
      fun _ => Looking source uids done uid :=
  .of_calls h fun c _ _ hc hgood hlooking =>
    have hquiet := rowStored_of_storeless (storeless_of_onBlobs c hc)
    ⟨hgood.cons hquiet, hlooking.cons hquiet (rowRead_of_onBlobs hc)⟩

section Copy

variable {dest : Bytes} {uids done rest : List UInt32} {uid : UInt32}
  (hselected : done ++ uid :: rest = selectionOf moves thread uids)
  (hnodup : (selectionOf moves thread uids).Nodup)
include hselected hnodup

-- The row that is stored now is the first copy of its message.
theorem copiesOwn_of_stored {own : List (Event sig)} {event : Event sig} {newUID : UInt32}
    (h : Looking source uids done uid own)
    (hstored : rowStored event.call event.result = some (dest, newUID)) :
    CopiesOwn source moves thread (event :: own) ∧
      Copying source uids (done ++ [uid]) (event :: own) := by
  obtain ⟨⟨hfirst, hcopies⟩, hlast⟩ := h
  have hmade : copiesMade source (event :: own) = ⟨uid, dest, newUID⟩ :: copiesMade source own := by
    rw [copiesMade, hstored, hlast]
  have hdone : ((copiesMade source (event :: own)).map CopyMade.uid) = (done ++ [uid]).reverse := by
    rw [hmade, List.map_cons, hcopies, List.reverse_append]
    rfl
  rw [← hselected] at hnodup
  refine ⟨⟨?_, fun copy hcopy => ?_⟩, firstRead_cons hfirst, hdone⟩
  · rw [hdone, List.nodup_reverse]
    exact hnodup.sublist (by simp)
  · have hmem : copy.uid ∈ (done ++ [uid]).reverse := hdone ▸ List.mem_map_of_mem hcopy
    rw [selected, firstRead_cons hfirst, Option.map_some, Option.getD_some, ← hselected]
    simp only [List.reverse_append, List.reverse_singleton, List.singleton_append, List.mem_cons,
      List.mem_reverse] at hmem
    simp only [List.mem_append, List.mem_cons]
    tauto

theorem copyOne_moves : Moves setup source moves thread (Copying source uids done)
    (copyOne setup source dest uid)
    fun copied own => ∀ value, copied = .ok value → Copying source uids (done ++ [uid]) own := by
  refine moves_quiet trivial (fun _ _ h => h.cons rfl) fun _ => .bind
    (fun copied own => ∀ value, copied = .ok value → Copying source uids (done ++ [uid]) own) ?_
    fun copied => moves_quiet trivial (fun _ _ h value hv => (h value hv).cons rfl) fun _ =>
      .done fun _ h => h
  refine .perform_bind (fun metadata own => ∀ value, metadata = .ok value →
    Looking source uids done uid own) ?_ fun metadata => ?_
  · rintro w choice metadata w' _ _ hgood h
    refine ⟨hgood.cons rfl, fun value hvalue => ⟨h.cons rfl, ?_⟩⟩
    subst hvalue
    simp [lastRead, rowRead]
  rcases metadata with e | metadata
  · exact .done fun _ _ value hvalue => by cases hvalue
  refine .entails (Looking source uids done uid) (fun _ h => h _ rfl) ?_
  refine moves_quiet trivial (fun _ _ h => h.cons rfl rfl) fun data => ?_
  rcases data with e | data
  · exact .done fun _ _ value hvalue => by cases hvalue
  refine moves_quiet trivial (fun _ _ h => h.cons rfl rfl) fun newUID => ?_
  rcases newUID with e | newUID
  · exact .done fun _ _ value hvalue => by cases hvalue
  refine .bind (fun _ => Looking source uids done uid)
    (moves_blobs (storeBlob_calls (fun _ h => h) setup data)) fun stored => ?_
  rcases stored with e | newID
  · exact .done fun _ _ value hvalue => by cases hvalue
  refine .perform_bind (fun written own => written = .ok () →
    Copying source uids (done ++ [uid]) own) ?_ fun written => ?_
  · rintro w choice written w' _ _ hgood h
    cases written with
    | error e => exact ⟨hgood.cons rfl, fun hw => by cases hw⟩
    | ok _ =>
      refine And.imp_right (fun hcopying _ => hcopying) ?_
      exact copiesOwn_of_stored hselected hnodup h rfl
  cases written with
  | error e =>
    refine .bind (fun _ _ => True) (.entails _ (fun _ _ => trivial)
      (moves_storeless (releaseBlobsLocked_calls storeless_of_onBlobs _))) ?_
    exact fun _ => .done fun _ _ value hvalue => by cases hvalue
  | ok _ => exact .done fun _ h _ _ => h rfl

end Copy

theorem copyEach_moves {dest : Bytes} {rest : List UInt32}
    (hselected : done ++ rest = selectionOf moves thread uids)
    (hnodup : (selectionOf moves thread uids).Nodup) (copied : Copied) :
    Moves setup source moves thread (Copying source uids done)
      (copyEach setup source dest copied rest) fun _ _ => True := by
  induction rest generalizing done copied with
  | nil => exact .done fun _ _ => trivial
  | cons uid rest ih =>
    refine .bind _ (copyOne_moves hselected hnodup) fun one => ?_
    cases one with
    | error e =>
      refine .bind (fun _ _ => True) (.entails _ (fun _ _ => trivial) (moves_storeless ?_))
        fun _ => .done fun _ _ => trivial
      exact .bind (deleteMessages_calls (fun _ _ => trivial) _ _) fun _ =>
        releaseBlobs_calls storeless_of_onBlobs _
    | ok one =>
      refine .entails _ (fun _ h => h _ rfl) (ih ?_ _)
      rw [← hselected, List.append_assoc]
      rfl

theorem copyMessagesUIDs_moves (hmove : moves[thread]? = some move) :
    Moves setup source moves thread (· = []) (copyMessagesUIDs setup source move.dest move.seqSet)
      fun _ _ => True := by
  unfold copyMessagesUIDs
  split
  · exact .done fun _ _ => trivial
  rename_i ranges hranges
  have hselection : ∀ uids, selectionOf moves thread uids = selectUIDs ranges uids := fun uids => by
    rw [selectionOf, hmove, Option.map_some, Option.getD_some, MoveCommand.selection, hranges]
  refine .bind (fun uids own => ∀ value, uids = .ok value →
    Copying source value [] own ∧ value.Nodup) ?_ fun uids => ?_
  · refine .perform_bind (fun uids own => ∀ value, uids = .ok value →
      Copying source value [] own ∧ value.Nodup) ?_ fun uids => ?_
    · rintro w choice uids w' _ hexec hgood hempty
      refine ⟨hgood.cons rfl, fun value hvalue => ?_⟩
      have hlisted := (world_books hexec).2 value hvalue
      rw [hempty]
      subst hvalue
      exact ⟨⟨by simp [firstRead, listRead], rfl⟩, hlisted.1⟩
    · cases uids with
      | error e => exact .done fun _ _ value hvalue => by cases hvalue
      | ok uids =>
        refine .done fun own h value hvalue => ?_
        split_ifs at hvalue
        cases hvalue
        exact h uids rfl
  · cases uids with
    | error e => exact .done fun _ _ => trivial
    | ok uids =>
      refine .entails _ (fun _ h => h uids rfl) (.assuming fun hnodup => ?_)
      refine .bind (fun _ _ => True) (copyEach_moves ?_ ?_ _) fun copied => ?_
      · rw [hselection, List.nil_append]
      · rw [hselection]
        exact hnodup.sublist (selectFrom_sublist _ _ _ _)
      · cases copied with
        | error e => exact .done fun _ _ => trivial
        | ok copied =>
          refine moves_storeless (.next trivial fun validity => ?_)
          cases validity <;> trivial

theorem MoveCommand.program_moves (hmove : moves[thread]? = some move) :
    Moves setup source moves thread (· = []) (move.program setup source) fun _ _ => True := by
  refine .bind (fun _ _ => True) (.bind (fun _ _ => True) (.bind (fun _ _ => True)
    (copyMessagesUIDs_moves hmove) fun copied => moves_storeless ?_) fun moved =>
    moves_storeless ?_) fun _ => .done fun _ _ => trivial
  · cases copied with
    | error e => trivial
    | ok copied =>
      refine .bind (flagMoved_calls storeless_of_reads (fun _ _ _ => trivial) _ _) fun flagged => ?_
      cases flagged <;> trivial
  · cases moved with
    | error e => trivial
    | ok moved =>
      dsimp only
      split_ifs
      · trivial
      · exact storeless_expunges.expungeUIDSubset fun uids _ =>
          storeless_expunges.expungeUIDs source uids

theorem ExpungeCommand.session_moves (commands : List ExpungeCommand) :
    Moves setup source moves thread (· = []) (session source commands) fun _ _ => True :=
  .entails _ (fun _ _ => trivial)
    (moves_storeless (session_calls storeless_expunges source commands))

end Moving

section Taking

variable {setup : Setup} {source : Bytes} {moves : List MoveCommand} {thread : Nat} {c : Call}
  {choice : Choice} {result : c.Result} {w w' : World sig State}

theorem selected_exec (hok : Apart setup source moves w thread c choice)
    (hexec : w.exec (machine setup) thread c choice = some (result, w')) :
    selected source moves thread (ownLog thread w'.log) =
        selected source moves thread (ownLog thread w.log) ∨
      ∀ uid ∈ selected source moves thread (ownLog thread w'.log), ∀ other ≠ thread,
        uid ∉ selected source moves other (ownLog other w.log) := by
  have hstep : exec setup thread choice w.state c = some (result, w'.state) :=
    (World.exec_eq_some.mp hexec).1
  rw [ownLog_exec hexec]
  cases hfirst : firstRead source (ownLog thread w.log) with
  | some uids => exact .inl (by simp only [selected, firstRead_cons hfirst, hfirst])
  | none =>
    rcases hread : listRead source c result with _ | uids
    · exact .inl (by simp [selected, firstRead, hread])
    cases c
    case getMessageUIDs mailbox =>
      rcases result with e | listed
      · cases hread
      simp only [listRead] at hread
      split_ifs at hread with hbox
      subst hbox
      have hlive := getMessageUIDs_ok hstep
      refine .inr fun uid huid other hne htaken => ?_
      simp only [selected, firstRead, hfirst, listRead, if_true, hlive] at huid
      by_cases hlt : other < moves.length
      · exact hok rfl hfirst uid huid other hlt hne htaken
      · rw [selected_of_length_le (Nat.le_of_not_lt hlt)] at htaken
        cases htaken
    all_goals cases hread

def TakenApart (source : Bytes) (moves : List MoveCommand) (w : World sig State) : Prop :=
  ∀ i j, i ≠ j → ∀ uid ∈ selected source moves i (ownLog i w.log),
    uid ∉ selected source moves j (ownLog j w.log)

theorem takenApart_step (hok : Apart setup source moves w thread c choice)
    (hexec : w.exec (machine setup) thread c choice = some (result, w'))
    (h : TakenApart source moves w) : TakenApart source moves w' := by
  have hother : ∀ i, i ≠ thread → ownLog i w'.log = ownLog i w.log := fun i hi =>
    ownLog_exec_other hexec hi
  intro i j hne uid hi hj
  by_cases hithread : i = thread
  · subst i
    rw [hother j (Ne.symm hne)] at hj
    rcases selected_exec hok hexec with hsame | hnew
    · rw [hsame] at hi
      exact h thread j hne uid hi hj
    · exact hnew uid hi j (Ne.symm hne) hj
  · rw [hother i hithread] at hi
    by_cases hjthread : j = thread
    · subst j
      rcases selected_exec hok hexec with hsame | hnew
      · rw [hsame] at hj
        exact h i thread hne uid hi hj
      · exact hnew uid hj i hithread hi
    · rw [hother j hjthread] at hj
      exact h i j hne uid hi hj

def Call.AddsNone (source : Bytes) : Call → Prop
  | .storeMessageMetadata mailbox _ _ => mailbox ≠ source
  | _ => True

theorem absent_step (hc : c.AddsNone source) (hok : Apart setup source moves w thread c choice)
    (hexec : w.exec (machine setup) thread c choice = some (result, w')) {uid : UInt32}
    (h : w.state.db.row setup.user source uid = none) :
    w'.state.db.row setup.user source uid = none := by
  have hbooks := world_books hexec
  change (books setup w'.state).row source uid = none
  cases c
  case storeMessageMetadata mailbox u metadata =>
    rcases hbooks with ⟨e, _, hb⟩ | ⟨_, row, _, hb⟩
    · rw [hb]
      exact h
    · rw [hb, Books.setRow_row, if_neg fun he => hc he.1]
      exact h
  case updateMessageMetadata mailbox u metadata =>
    rcases hbooks with ⟨e, _, hb⟩ | ⟨_, row, _, hb⟩
    · rw [hb]
      exact h
    rw [hb, Books.setRow_row, if_neg]
    · exact h
    · rintro ⟨rfl, rfl⟩
      have hthere : (w.state.db.row setup.user mailbox u).isSome := hok
      rw [h] at hthere
      cases hthere
  case updateMessageMetadataFunc mailbox u fn =>
    rcases hbooks with ⟨e, _, hb⟩ | ⟨_, hb | ⟨prev, changed, row, hprev, _, _, _, hb⟩⟩
    · rw [hb]
      exact h
    · rw [hb]
      exact h
    · rw [hb, Books.setRow_row, if_neg]
      · exact h
      · rintro ⟨rfl, rfl⟩
        rw [show (books setup w.state).row mailbox u = none from h] at hprev
        cases hprev
  case deleteMessage mailbox u =>
    rcases hbooks with ⟨e, _, hb⟩ | ⟨_, hb⟩
    · rw [hb]
      exact h
    rw [hb, Books.setRow_row]
    split_ifs
    · rfl
    · exact h
  case deleteMailbox mailbox =>
    rcases hbooks with ⟨e, _, hb⟩ | ⟨_, hb⟩
    · rw [hb]
      exact h
    rw [hb, Books.dropMailbox_row]
    split_ifs
    · rfl
    · exact h
  all_goals
    rw [hbooks.row_eq id]
    exact h

end Taking

theorem addsNone_of_reads (c : Call) (h : c.Reads) : c.AddsNone source := by
  cases c
  case storeMessageMetadata => exact False.elim h
  all_goals trivial

theorem addsNone_of_onBlobs (c : Call) (h : c.OnBlobs) : c.AddsNone source := by
  cases c
  case storeMessageMetadata => exact False.elim h
  all_goals trivial

theorem addsNone_expunges : Expunges (Call.AddsNone source) fun _ program =>
    program.Calls (Call.AddsNone source) :=
  expunges_calls addsNone_of_onBlobs addsNone_of_reads fun _ _ => trivial

theorem movePool_calls (hdest : ∀ move ∈ moves, move.dest ≠ source) :
    ∀ program ∈ (movePool setup source state moves expunges).pool,
      program.Calls (Call.AddsNone source) := by
  intro program hp
  rcases List.mem_append.mp hp with hp | hp
  · obtain ⟨move, hmove, rfl⟩ := List.mem_map.mp hp
    refine .bind (addsNone_expunges.moveLive (fun _ _ _ => trivial) ?_ move.seqSet) fun _ => trivial
    exact copyOne_calls addsNone_of_onBlobs addsNone_of_reads setup trivial
      (fun _ _ _ => hdest move hmove) source
  · obtain ⟨commands, _, rfl⟩ := List.mem_map.mp hp
    exact ExpungeCommand.session_calls addsNone_expunges source commands

theorem movePool_moves (i : Nat) (program : Prog Unit)
    (hi : (movePool setup source state moves expunges).pool[i]? = some program) :
    Moves setup source moves i (· = []) program fun _ _ => True := by
  change (moves.map _ ++ expunges.map _)[i]? = some program at hi
  rw [List.getElem?_append] at hi
  split_ifs at hi
  · rw [List.getElem?_map, Option.map_eq_some_iff] at hi
    obtain ⟨move, hmove, rfl⟩ := hi
    exact move.program_moves hmove
  · obtain ⟨commands, _, rfl⟩ := List.mem_map.mp (List.mem_of_getElem? hi)
    exact ExpungeCommand.session_moves commands

-- In every interleaving in which no two sessions take the same message and no
-- removed row is written back, a message has at most one copy at every moment,
-- and a row that is gone stays away.
theorem moveSafe_of_apart (setup : Setup) (state : State) (source : Bytes)
    (moves : List MoveCommand) (expunges : List (List ExpungeCommand))
    (hdest : ∀ move ∈ moves, move.dest ≠ source) (cfg : Config sig State Unit)
    (hrun : Run (machine setup) (Apart setup source moves)
      (movePool setup source state moves expunges) cfg) :
    CopiedOnce setup source cfg.world ∧
      ∀ cfg', Run (machine setup) (Apart setup source moves) cfg cfg' → ∀ uid,
        cfg.world.state.db.row setup.user source uid = none →
        cfg'.world.state.db.row setup.user source uid = none := by
  constructor
  · have hown := hrun.acts (CopiesOwn source moves)
      (fun _ => ⟨List.nodup_nil, fun _ h => by cases h⟩) movePool_moves
    have hapart : TakenApart source moves cfg.world :=
      hrun.invariant (TakenApart source moves)
        (fun _ _ _ _ _ _ _ hok hexec h => takenApart_step hok hexec h) (movePool_calls hdest)
        fun _ _ _ _ h => by cases h
    intro i j a b ha hb huid _ _
    obtain rfl : i = j := by
      by_contra hne
      exact hapart i j hne a.uid ((hown i).2 a ha) (huid ▸ (hown j).2 b hb)
    obtain rfl : a = b := List.inj_on_of_nodup_map (hown i).1 ha hb huid
    exact ⟨rfl, rfl⟩
  · intro cfg' hrun' uid habsent
    exact hrun'.invariant (fun w => w.state.db.row setup.user source uid = none)
      (fun _ _ _ _ _ _ hc hok hexec h => absent_step hc hok hexec h)
      (hrun.calls (movePool_calls hdest)) habsent

def twoMessages : State :=
  { rivalState with
    db := storeMessageMetadataTx demoSetup.user inboxName 2
      { MessageMetadata.empty with messageID := demoSetup.hash (bytes "0"), uid := 2, size := 1 }
      rivalState.db }

def apartMoves : List MoveCommand := [⟨bytes "A", bytes "1"⟩, ⟨bytes "A", bytes "2"⟩]

def apartMoveSchedule : List (Nat × Choice) :=
  let choice := { demoChoice with order := [demoSetup.hash (bytes "0")] }
  [(0, choice), (1, choice)] ++ List.replicate 9 (0, choice) ++ List.replicate 9 (1, choice) ++
    List.replicate 18 (0, choice) ++ List.replicate 16 (1, choice) ++ List.replicate 3 (2, choice)

theorem moveSafe_apart_moves : ∃ cfg,
    Run (machine demoSetup) (Apart demoSetup inboxName apartMoves)
      (movePool demoSetup inboxName twoMessages apartMoves [[.report]]) cfg ∧
    Finished cfg ∧ CopiedOnce demoSetup inboxName cfg.world := by
  have hrun : ((movePool demoSetup inboxName twoMessages apartMoves [[.report]]).replay
      (machine demoSetup) (Apart demoSetup inboxName apartMoves) apartMoveSchedule).any
      (fun cfg => cfg.pool.all Program.isDone) = true := by
    decide
  obtain ⟨cfg, hcfg, hdone⟩ := (Option.any_eq_true _ _).mp hrun
  rw [List.all_eq_true] at hdone
  exact ⟨cfg, .of_replay hcfg, fun program hp => Program.eq_done_of_isDone (hdone program hp),
    (moveSafe_of_apart demoSetup twoMessages inboxName apartMoves [[.report]] (by decide) cfg
      (.of_replay hcfg)).1⟩

end UMail.Mailstore
