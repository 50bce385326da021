import UMail.Concurrency.RelyGuarantee
import UMail.Mailstore.Machine.Theorems
import UMail.Mailstore.Operations.Calls
import UMail.Storage.ModSeq

namespace UMail.Mailstore

open Concurrency UMail.Storage UMail.Imap

-- The writers of rows: they store new rows under ModSeq 0, change flags in
-- place, and never drop a mailbox.
def WriterCall : Call → Prop
  | .storeMessageMetadata _ _ metadata => metadata.modSeq = 0
  | .updateMessageMetadata _ _ _ | .deleteMailbox _ => False
  | _ => True

section Calls

variable (setup : Setup)

private theorem writerCall_of_reads (c : Call) (h : c.Reads) : WriterCall c := by
  cases c
  case updateMessageMetadata | deleteMailbox | storeMessageMetadata => exact False.elim h
  all_goals trivial

private theorem writerCall_of_onBlobs (c : Call) (h : c.OnBlobs) : WriterCall c := by
  cases c
  case updateMessageMetadata | deleteMailbox | storeMessageMetadata => exact False.elim h
  all_goals trivial

theorem appendLocked_calls (mailbox : Bytes) (flags : List Bytes) (date : Int) (data : Bytes) :
    (appendLocked setup mailbox flags date data).Calls WriterCall := by
  refine .bind (storeBlob_calls writerCall_of_onBlobs setup data) fun stored => ?_
  rcases stored with e | messageID
  · trivial
  refine .next trivial fun uid => ?_
  rcases uid with e | uid
  · exact .bind (releaseBlobsLocked_calls writerCall_of_onBlobs _) fun _ => trivial
  refine .bind (threadOf_calls writerCall_of_reads _) fun thread =>
    .next rfl fun written => ?_
  cases written with
  | error e => exact .bind (releaseBlobsLocked_calls writerCall_of_onBlobs _) fun _ => trivial
  | ok _ => trivial

theorem appendMessageUID_calls (mailbox : Bytes) (flags : List Bytes) (date : Int) (data : Bytes) :
    (appendMessageUID setup mailbox flags date data).Calls WriterCall := by
  have hfinish := finish_calls writerCall_of_reads mailbox
  refine .next trivial fun _ => .bind (appendLocked_calls setup mailbox flags date data)
    fun appended => .next trivial fun _ => ?_
  rcases appended with e | uid
  · trivial
  refine .next trivial fun uids => ?_
  rcases uids with e | uids
  · exact hfinish uid
  dsimp only
  split_ifs
  · trivial
  · exact hfinish uid

theorem storeFlags_calls (mailbox seqSet : Bytes) (flags : List Bytes) (op : FlagOperation) :
    (storeFlags mailbox seqSet flags op).Calls WriterCall := by
  have heach : ∀ flags uids, (storeEach mailbox flags op uids).Calls WriterCall := by
    intro flags uids
    induction uids with
    | nil => trivial
    | cons uid rest ih =>
      exact .next trivial fun _ => .bind ih fun _ => trivial
  unfold storeFlags
  split
  · trivial
  refine .bind (readUIDs_calls writerCall_of_reads mailbox) fun uids => ?_
  cases uids with
  | error e => trivial
  | ok uids => exact heach _ _

theorem metaFail_calls (messageID : Bytes) (reserved : Int) :
    (metaFail messageID reserved).Calls WriterCall := by
  unfold metaFail
  split_ifs
  · exact .next trivial fun _ => .next trivial fun _ => trivial
  · trivial

theorem deliverRow_calls (folder : Bytes) (flags : List Bytes) (data messageID : Bytes)
    (reserved : Int) : (deliverRow setup folder flags data messageID reserved).Calls WriterCall := by
  refine .bind (ensureFolder_calls (fun _ => trivial)) fun _ =>
    .next trivial fun uid => ?_
  rcases uid with e | uid
  · exact .bind (metaFail_calls _ _) fun _ => trivial
  refine .next trivial fun _ => .next trivial fun _ =>
    .next rfl fun written => ?_
  cases written with
  | error e => exact .bind (metaFail_calls _ _) fun _ => trivial
  | ok _ => trivial

theorem deliverLocalHop_calls (folder : Bytes) (flags : List Bytes) (data : Bytes) :
    (deliverLocalHop setup folder flags data).Calls WriterCall := by
  refine .next trivial fun _ => .bind ?_ fun _ => .next trivial fun _ => trivial
  refine .next trivial fun active => ?_
  split_ifs
  · refine .next trivial fun known =>
      .bind (reserveDelivery_calls (fun _ => trivial) _) fun reserved => ?_
    rcases reserved with e | _
    · trivial
    refine .next trivial fun stored => ?_
    cases stored with
    | error e => exact .bind (releaseDelivery_calls (fun _ => trivial) _) fun _ => trivial
    | ok messageID => exact deliverRow_calls setup folder flags data messageID _
  · trivial

end Calls

def RowChanged (setup : Setup) (before after : State) (mailbox : Bytes) (uid : UInt32)
    (row : MessageMetadata) : Prop :=
  after.db.row setup.user mailbox uid = some row ∧
    ∀ old, before.db.row setup.user mailbox uid = some old → old.flags ≠ row.flags

def Counting (setup : Setup) (w : World sig State) (_ : Nat) (c : Call) (_ : Choice) : Prop :=
  match c with
  | .storeMessageMetadata mailbox uid _ | .updateMessageMetadataFunc mailbox uid _ =>
    Raisable w.state.db setup.user mailbox uid
  | _ => True

instance (setup : Setup) (w : World sig State) (thread : Nat) (c : Call) (choice : Choice) :
    Decidable (Counting setup w thread c choice) := by
  apply @Call.casesOn (fun c => Decidable (Counting setup w thread c choice)) c
  case storeMessageMetadata | updateMessageMetadataFunc =>
    exact fun mailbox uid _ => inferInstanceAs (Decidable (Raisable w.state.db setup.user mailbox uid))
  all_goals
    intros
    exact isTrue trivial

section Step

variable {setup : Setup} {choice : Choice} {db : Database} {mailbox box : Bytes} {w : World sig State}
  {row : MessageMetadata} {thread : Nat} {c : Call} {uid : UInt32}

theorem getHighestModSeq_update_le {α : Type} {env : Env} {user : Bytes}
    {tx : Database → Except StorageError (α × Database)}
    (h : ∀ value db', tx db = .ok (value, db') →
      db.getHighestModSeq user box ≤ db'.getHighestModSeq user box) :
    db.getHighestModSeq user box ≤ (db.update env tx).2.getHighestModSeq user box :=
  update_cases (motive := fun out => _ ≤ out.2.getHighestModSeq user box) (fun _ => UInt64.le_refl _)
    fun value db' _ => h value db'

theorem dbEffect_highest_le (hc : WriterCall c) (hok : Counting setup w thread c choice) :
    w.state.db.getHighestModSeq setup.user box ≤
      (dbEffect setup choice c w.state.db).getHighestModSeq setup.user box := by
  cases c
  case storeMessageMetadata mailbox uid metadata =>
    refine getHighestModSeq_update_le fun value db' h => ?_
    cases h
    exact getHighestModSeq_store_le hok _ setup.user box
  case updateMessageMetadataFunc mailbox uid fn =>
    refine getHighestModSeq_update_le fun value db' h => ?_
    rcases updateMessageMetadataFuncTx_cases h with rfl | ⟨_, _, _, _, hhigh, _⟩
    · exact UInt64.le_refl _
    rw [hhigh]
    split_ifs with hsame
    · obtain ⟨_, rfl⟩ := hsame
      exact UInt64.le_of_lt (lt_succ_modSeq hok.1)
    · exact UInt64.le_refl _
  case createMailbox mailbox =>
    refine getHighestModSeq_update_le fun value db' h => ?_
    rw [(createMailboxTx_kept h).1]
    exact UInt64.le_refl _
  case getNextUID mailbox =>
    refine getHighestModSeq_update_le fun value db' h => ?_
    rw [(getNextUIDTx_kept h).1]
    exact UInt64.le_refl _
  case deleteMessage mailbox uid =>
    refine getHighestModSeq_update_le fun value db' h => ?_
    cases h
    rw [getHighestModSeq_deleteMessageTx]
    exact UInt64.le_refl _
  case updateMessageMetadata | deleteMailbox => exact False.elim hc
  all_goals exact UInt64.le_refl _

-- A row is written over an old one, under a fresh ModSeq, or created under
-- ModSeq 0.
def Renewed (user box : Bytes) (uid : UInt32) (row : MessageMetadata) (db db' : Database) : Prop :=
  (db.row user box uid = none ∧ row.modSeq = 0) ∨
    ((db.row user box uid).isSome ∧ db.getHighestModSeq user box < row.modSeq ∧
      row.modSeq ≤ db'.getHighestModSeq user box)

theorem renewed_update {α : Type} {env : Env} {tx : Database → Except StorageError (α × Database)}
    {user : Bytes} (hsame : db.row user box uid ≠ some row)
    (h : ∀ value db', tx db = .ok (value, db') → db'.row user box uid = some row →
      Renewed user box uid row db db') :
    (db.update env tx).2.row user box uid = some row → Renewed user box uid row db (db.update env tx).2 :=
  update_cases (motive := fun out => out.2.row user box uid = some row → Renewed user box uid row db out.2)
    (fun _ hrow => absurd hrow hsame) fun value db' _ htx => h value db' htx

-- A step that changes a row renews it.
theorem dbEffect_row (hc : WriterCall c) (hok : Counting setup w thread c choice)
    (hrow : (dbEffect setup choice c w.state.db).row setup.user box uid = some row)
    (hchanged : ∀ old, w.state.db.row setup.user box uid = some old → old.flags ≠ row.flags) :
    Renewed setup.user box uid row w.state.db (dbEffect setup choice c w.state.db) := by
  -- A call that leaves the row alone contradicts the change.
  have hsame : w.state.db.row setup.user box uid ≠ some row := fun h => hchanged row h rfl
  revert hrow
  cases c
  case storeMessageMetadata mailbox uid' metadata =>
    refine renewed_update hsame fun value db' h => ?_
    cases h
    rw [row_storeMessageMetadataTx]
    intro hrow
    split_ifs at hrow with hkey
    · obtain ⟨_, rfl, rfl⟩ := hkey
      cases hrow
      have hzero : metadata.normalize.modSeq = 0 := hc
      cases hold : w.state.db.row setup.user mailbox uid' with
      | none =>
        refine .inl ⟨hold, ?_⟩
        simp only [storedModSeq_of_new hold, hzero]
      | some prev =>
        obtain ⟨hlt, hle⟩ := storedModSeq_fresh hok hold
        refine .inr ⟨by rw [hold]; rfl, ?_, ?_⟩
        · simpa only [hzero] using hlt
        · simpa only [hzero] using hle _ hzero
    · exact False.elim (hsame hrow)
  case updateMessageMetadataFunc mailbox uid' fn =>
    refine renewed_update hsame fun value db' h => ?_
    rcases updateMessageMetadataFuncTx_cases h with rfl | ⟨prev, changed, hold, _, hhigh, hrows⟩
    · exact fun hrow => False.elim (hsame hrow)
    unfold Renewed
    rw [hrows, hhigh]
    intro hrow
    split_ifs at hrow with hkey
    · obtain ⟨_, rfl, rfl⟩ := hkey
      cases hrow
      refine .inr ⟨by rw [hold]; rfl, lt_succ_modSeq hok.1, ?_⟩
      simp only
      exact UInt64.le_refl _
    · exact False.elim (hsame hrow)
  case createMailbox mailbox =>
    refine renewed_update hsame fun value db' h => ?_
    rw [(createMailboxTx_kept h).2]
    exact fun hrow => False.elim (hsame hrow)
  case getNextUID mailbox =>
    refine renewed_update hsame fun value db' h => ?_
    rw [(getNextUIDTx_kept h).2]
    exact fun hrow => False.elim (hsame hrow)
  case deleteMessage mailbox uid' =>
    refine renewed_update hsame fun value db' h => ?_
    cases h
    rw [row_deleteMessageTx]
    intro hrow
    split_ifs at hrow
    exact False.elim (hsame hrow)
  case updateMessageMetadata | deleteMailbox => exact False.elim hc
  all_goals exact fun hrow => False.elim (hsame hrow)

end Step

inductive Writer
  | append (mailbox : Bytes) (flags : List Bytes) (date : Int) (data : Bytes)
  | copy (source dest seqSet : Bytes)
  | storeFlags (mailbox seqSet : Bytes) (flags : List Bytes) (op : FlagOperation)
  | deliver (folder : Bytes) (flags : List Bytes) (data : Bytes)

def Writer.program (setup : Setup) : Writer → Prog Unit
  | .append mailbox flags date data => do
    let _ ← appendMessageUID setup mailbox flags date data
    pure ()
  | .copy source dest seqSet => do
    let _ ← copyMessagesUIDs setup source dest seqSet
    pure ()
  | .storeFlags mailbox seqSet flags op => do
    let _ ← Mailstore.storeFlags mailbox seqSet flags op
    pure ()
  | .deliver folder flags data => do
    let _ ← deliverLocalHop setup folder flags data
    pure ()

def Writer.session (setup : Setup) : List Writer → Prog Unit
  | [] => pure ()
  | writer :: rest => do
    writer.program setup
    session setup rest

theorem Writer.session_calls (setup : Setup) (writers : List Writer) :
    (session setup writers).Calls WriterCall := by
  induction writers with
  | nil => trivial
  | cons writer rest ih =>
    refine .bind ?_ fun _ => ih
    cases writer with
    | append mailbox flags date data =>
      exact .bind (appendMessageUID_calls setup mailbox flags date data) fun _ => trivial
    | copy source dest seqSet =>
      refine .bind (Expunges.copyMessagesUIDs (expunges_calls writerCall_of_onBlobs
        writerCall_of_reads fun _ _ => trivial) ?_ seqSet) fun _ => trivial
      exact copyOne_calls writerCall_of_onBlobs writerCall_of_reads setup trivial
        (fun _ _ _ => rfl) source
    | storeFlags mailbox seqSet flags op =>
      exact .bind (storeFlags_calls mailbox seqSet flags op) fun _ => trivial
    | deliver folder flags data =>
      exact .bind (deliverLocalHop_calls setup folder flags data) fun _ => trivial

def writerPool (setup : Setup) (state : State) (sessions : List (List Writer)) :
    Config sig State Unit :=
  ⟨⟨state, []⟩, sessions.map (Writer.session setup)⟩

-- Later than the moment the row is seen by whoever asks for what has changed
-- since then.
def Fresh (setup : Setup) (moment after : State) (mailbox : Bytes) (row : MessageMetadata) : Prop :=
  moment.db.getHighestModSeq setup.user mailbox < row.modSeq ∧
    row.modSeq ≤ after.db.getHighestModSeq setup.user mailbox

def CondstoreSafe (setup : Setup) (state : State) (sessions : List (List Writer)) : Prop :=
  ∀ moment cfg cfg' : Config sig State Unit,
    Run (machine setup) (fun _ _ _ _ => True) (writerPool setup state sessions) moment →
    Run (machine setup) (fun _ _ _ _ => True) moment cfg →
    cfg.StepsTo (machine setup) (fun _ _ _ _ => True) cfg' →
    ∀ mailbox uid row, RowChanged setup cfg.world.state cfg'.world.state mailbox uid row →
      Fresh setup moment.world.state cfg'.world.state mailbox row

-- An appended message is stored under ModSeq 0.
theorem condstoreSafe_fails_append :
    ¬ CondstoreSafe demoSetup emptyState [[.append (bytes "INBOX") [] 0 (bytes "0")]] := by
  intro h
  have hrun : ((writerPool demoSetup emptyState
      [[.append (bytes "INBOX") [] 0 (bytes "0")]]).replay (machine demoSetup)
        (fun _ _ _ _ => True) (List.replicate 7 (0, demoChoice))).any (fun cfg =>
      (cfg.step (machine demoSetup) (fun _ _ _ _ => True) 0 demoChoice).any fun cfg' =>
        cfg.world.state.db.row demoSetup.user (bytes "INBOX") 1 = none ∧
          (cfg'.world.state.db.row demoSetup.user (bytes "INBOX") 1).any fun row =>
            row.modSeq = 0) = true := by
    decide
  obtain ⟨cfg, hcfg, hnext⟩ := (Option.any_eq_true _ _).mp hrun
  obtain ⟨cfg', hstep, hrow⟩ := (Option.any_eq_true _ _).mp hnext
  simp only [decide_eq_true_eq] at hrow
  obtain ⟨hnew, hstored⟩ := hrow
  obtain ⟨row, hrow, hzero⟩ := (Option.any_eq_true _ _).mp hstored
  have hfresh := h _ cfg cfg' .start (.of_replay hcfg) (Config.stepsTo_of_step hstep)
    (bytes "INBOX") 1 row ⟨hrow, fun old hold => by rw [hnew] at hold; cases hold⟩
  simp only [decide_eq_true_eq] at hzero
  exact absurd hfresh.1 (UInt64.not_lt.mpr (by grind))

theorem highest_le_run {setup : Setup} {ok : World sig State → Nat → Call → Choice → Prop}
    (hok : ∀ w thread c choice, ok w thread c choice → Counting setup w thread c choice)
    {start cfg : Config sig State Unit} (hrun : Run (machine setup) ok start cfg)
    (hcalls : ∀ program ∈ start.pool, program.Calls WriterCall) (mailbox : Bytes) :
    start.world.state.db.getHighestModSeq setup.user mailbox ≤
      cfg.world.state.db.getHighestModSeq setup.user mailbox := by
  refine hrun.invariant (fun w => start.world.state.db.getHighestModSeq setup.user mailbox ≤
    w.state.db.getHighestModSeq setup.user mailbox) ?_ hcalls (UInt64.le_refl _)
  intro w thread c choice result w' hc hcount hexec hle
  have hdb := exec_db (World.exec_eq_some.mp hexec).1
  rw [hdb]
  exact UInt64.le_trans hle (dbEffect_highest_le hc (hok w thread c choice hcount))

-- As long as no counter is at its end, a change is fresh for every earlier
-- moment exactly when the row was there before.
theorem fresh_iff_existing (setup : Setup) (state : State) (sessions : List (List Writer))
    (moment cfg cfg' : Config sig State Unit)
    (hmoment : Run (machine setup) (Counting setup) (writerPool setup state sessions) moment)
    (hrun : Run (machine setup) (Counting setup) moment cfg)
    (hstep : cfg.StepsTo (machine setup) (Counting setup) cfg')
    (mailbox : Bytes) (uid : UInt32) (row : MessageMetadata)
    (hchanged : RowChanged setup cfg.world.state cfg'.world.state mailbox uid row) :
    Fresh setup moment.world.state cfg'.world.state mailbox row ↔
      (cfg.world.state.db.row setup.user mailbox uid).isSome := by
  have hstart : ∀ program ∈ (writerPool setup state sessions).pool, program.Calls WriterCall := by
    intro program hp
    obtain ⟨writers, _, rfl⟩ := List.mem_map.mp hp
    exact Writer.session_calls setup writers
  have hcalls := hmoment.calls hstart
  have hle := highest_le_run (fun _ _ _ _ h => h) hrun hcalls mailbox
  obtain ⟨thread, c, next, choice, result, w, hpool, hok, hexec, rfl⟩ := hstep
  have hc : WriterCall c := (hrun.calls hcalls _ (List.mem_of_getElem? hpool)).1
  have hdb := exec_db (World.exec_eq_some.mp hexec).1
  obtain ⟨hrow, hflags⟩ := hchanged
  rw [hdb] at hrow
  unfold Fresh
  simp only [hdb]
  rcases dbEffect_row hc hok hrow hflags with ⟨hnone, hzero⟩ | ⟨hsome, hlt, hge⟩
  · rw [hnone]
    refine ⟨fun h => absurd h.1 (UInt64.not_lt.mpr (by grind)), fun h => by cases h⟩
  · exact ⟨fun _ => hsome, fun _ => ⟨UInt64.lt_of_le_of_lt hle hlt, hge⟩⟩

def oneMessage : State :=
  { emptyState with
    db := storeMessageMetadataTx demoSetup.user (bytes "INBOX") 1 .empty .empty }

def flagSession : List (List Writer) :=
  [[.storeFlags (bytes "INBOX") (bytes "1") [bytes "\\Seen"] .flagAdd]]

theorem fresh_flag_change : ∃ cfg cfg' row,
    Run (machine demoSetup) (Counting demoSetup) (writerPool demoSetup oneMessage flagSession) cfg ∧
    cfg.StepsTo (machine demoSetup) (Counting demoSetup) cfg' ∧
    RowChanged demoSetup cfg.world.state cfg'.world.state (bytes "INBOX") 1 row ∧
    Fresh demoSetup oneMessage cfg'.world.state (bytes "INBOX") row := by
  have hrun : ((writerPool demoSetup oneMessage flagSession).replay (machine demoSetup)
      (Counting demoSetup) [(0, demoChoice)]).any (fun cfg =>
      (cfg.step (machine demoSetup) (Counting demoSetup) 0 demoChoice).any fun cfg' =>
        (cfg.world.state.db.row demoSetup.user (bytes "INBOX") 1).any fun old =>
          (cfg'.world.state.db.row demoSetup.user (bytes "INBOX") 1).any fun row =>
            old.flags ≠ row.flags) = true := by
    decide
  obtain ⟨cfg, hcfg, hnext⟩ := (Option.any_eq_true _ _).mp hrun
  obtain ⟨cfg', hstep, hrows⟩ := (Option.any_eq_true _ _).mp hnext
  obtain ⟨old, hold, hrow⟩ := (Option.any_eq_true _ _).mp hrows
  obtain ⟨row, hrow, hflags⟩ := (Option.any_eq_true _ _).mp hrow
  have hsteps := Config.stepsTo_of_step hstep
  have hchanged : RowChanged demoSetup cfg.world.state cfg'.world.state (bytes "INBOX") 1 row :=
    ⟨hrow, fun o ho => by simp_all⟩
  exact ⟨cfg, cfg', row, .of_replay hcfg, hsteps, hchanged,
    (fresh_iff_existing demoSetup oneMessage flagSession _ cfg cfg' .start (.of_replay hcfg) hsteps
      (bytes "INBOX") 1 row hchanged).mpr (by rw [hold]; rfl)⟩

-- HIGHESTMODSEQ never goes back between two moments.
theorem getHighestModSeq_le_later {setup : Setup} {state : State} {sessions : List (List Writer)}
    {moment cfg : Config sig State Unit}
    (hmoment : Run (machine setup) (Counting setup) (writerPool setup state sessions) moment)
    (hrun : Run (machine setup) (Counting setup) moment cfg) (mailbox : Bytes) :
    moment.world.state.db.getHighestModSeq setup.user mailbox ≤
      cfg.world.state.db.getHighestModSeq setup.user mailbox := by
  refine highest_le_run (fun _ _ _ _ h => h) hrun (hmoment.calls fun program hp => ?_) mailbox
  obtain ⟨writers, _, rfl⟩ := List.mem_map.mp hp
  exact Writer.session_calls setup writers

theorem getHighestModSeq_le_flags : ∃ cfg,
    Run (machine demoSetup) (Counting demoSetup) (writerPool demoSetup oneMessage flagSession) cfg ∧
    (cfg.world.state.db.row demoSetup.user (bytes "INBOX") 1).map MessageMetadata.flags =
      some [bytes "\\Seen"] ∧
    oneMessage.db.getHighestModSeq demoSetup.user (bytes "INBOX") ≤
      cfg.world.state.db.getHighestModSeq demoSetup.user (bytes "INBOX") := by
  have hrun : ((writerPool demoSetup oneMessage flagSession).replay (machine demoSetup)
      (Counting demoSetup) [(0, demoChoice), (0, demoChoice)]).any (fun cfg =>
        (cfg.world.state.db.row demoSetup.user (bytes "INBOX") 1).map MessageMetadata.flags =
          some [bytes "\\Seen"]) = true := by
    decide
  obtain ⟨cfg, hcfg, hflags⟩ := (Option.any_eq_true _ _).mp hrun
  exact ⟨cfg, .of_replay hcfg, of_decide_eq_true hflags,
    getHighestModSeq_le_later .start (.of_replay hcfg) _⟩

end UMail.Mailstore
