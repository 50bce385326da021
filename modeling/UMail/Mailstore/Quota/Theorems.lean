import UMail.Mailstore.Quota

namespace UMail.Mailstore

open Concurrency UMail.Storage UMail.Db UMail.Imap

-- The state between two operations: the counter is the size of the files, and
-- every row has its file and knows its length.
abbrev Accounted : Books → Prop := Ledger 0 RowsBacked

variable {setup : Setup}

section Rows

variable {refs refs' : List BlobRef} {frame : Rows → Prop} {b b' : Books}

theorem Accounted.holding (h : Accounted b) : Ledger 0 (Holding [] fun _ => True) b :=
  h.mono fun _ _ hrows => ⟨hrows, by simp, trivial⟩

theorem Accounted.releasing (h : Accounted b) : Ledger 0 (Releasing [] fun _ => True) b :=
  h.mono fun _ _ hrows => ⟨hrows, by simp, trivial⟩

theorem accounted_of_holding (h : Ledger 0 (Holding refs frame) b) : Accounted b :=
  h.mono fun _ _ hf => hf.1

theorem accounted_of_releasing (h : Ledger 0 (Releasing refs frame) b) : Accounted b :=
  h.mono fun _ _ hf => hf.1

theorem Releasing.subset (hsub : refs' ⊆ refs) (h : Ledger 0 (Releasing refs frame) b) :
    Ledger 0 (Releasing refs' frame) b :=
  h.mono fun _ _ hf => ⟨hf.1, fun ref href => hf.2.1 ref (hsub href), hf.2.2⟩

-- What is read of a row is the length of its file. A row that is not there
-- reads as one without a file.
theorem RowsBacked.sized_getD {blobs : Blobs} {rows : Rows} (h : RowsBacked blobs rows)
    (mailbox : Bytes) (uid : UInt32) :
    Sized blobs (blobOf ((rows mailbox uid).getD .empty)) := by
  cases hrow : rows mailbox uid with
  | none => exact fun hvalid => absurd hvalid (by decide)
  | some row => exact (h mailbox uid row hrow).sized

def Grows (frame : Rows → Prop) : Prop :=
  ∀ (b : Books) mailbox uid row, frame b.row → frame (b.setRow mailbox uid (some row)).row

variable {mailbox : Bytes} {uid : UInt32} {result : Except StorageError Unit}
  {metadata : MessageMetadata}

theorem holding_storeRow (hframe : Grows frame) (hb : Ledger 0 (Holding refs frame) b)
    (hbacked : Backed b.blobs (blobOf metadata))
    (hstep : Transacted result b b' fun out => ∃ row, StoredAs metadata row ∧
      out = b.setRow mailbox uid (some row)) : Ledger 0 (Holding refs frame) b' := by
  rcases hstep with ⟨_, _, rfl⟩ | ⟨_, row, hrow, rfl⟩
  · exact hb
  have hblob : blobOf row = blobOf metadata := by
    unfold blobOf
    rw [hrow.messageID, hrow.size]
  obtain ⟨hused, hrows, hrefs, hf⟩ := hb
  exact ⟨hused, hrows.setRow (hblob ▸ hbacked), hrefs, hframe b mailbox uid row hf⟩

-- A reference taken from a row that was read is known by its length.
theorem releasing_read (hb : Ledger 0 (Releasing refs fun _ => True) b)
    (hread : metadata = (b.row mailbox uid).getD .empty) :
    Ledger 0 (Releasing (blobOf metadata :: refs) fun _ => True) b := by
  obtain ⟨hused, hrows, hrefs, _⟩ := hb
  refine ⟨hused, hrows, fun ref href => ?_, trivial⟩
  rcases List.mem_cons.mp href with rfl | href
  · rw [hread]
    exact hrows.sized_getD mailbox uid
  · exact hrefs ref href

theorem releasing_deleteRow (hb : Ledger 0 (Releasing refs fun _ => True) b)
    (hstep : Transacted result b b' fun out => out = b.setRow mailbox uid none) :
    Ledger 0 (Releasing refs fun _ => True) b' := by
  rcases hstep with ⟨_, _, rfl⟩ | ⟨_, rfl⟩
  · exact hb
  obtain ⟨hused, hrows, hrefs, _⟩ := hb
  refine ⟨hused, hrows.mono fun box u row hrow => ?_, hrefs, trivial⟩
  rw [Books.setRow_row] at hrow
  split_ifs at hrow
  exact hrow

end Rows

theorem getMessageMetadata_spec {α : Type} {pre : Books → Prop} {post : α → Books → Prop}
    {mailbox : Bytes} {uid : UInt32} {rest : Except StorageError MessageMetadata → Prog α}
    (herror : ∀ e, Spec setup pre (rest (.error e)) post)
    (hok : ∀ metadata, Spec setup (fun b => pre b ∧ metadata = (b.row mailbox uid).getD .empty)
      (rest (.ok metadata)) post) :
    Spec setup pre (invoke (.getMessageMetadata mailbox uid) >>= rest) post := by
  refine .read (fun result b => ∀ metadata, result = .ok metadata →
    metadata = (b.row mailbox uid).getD .empty) (fun _ _ _ _ _ _ _ h => h) fun result => ?_
  cases result with
  | error e => exact (herror e).entails _ fun _ h => h.1
  | ok metadata => exact (hok metadata).entails _ fun _ h => ⟨h.1, h.2 metadata rfl⟩

section Append

variable {mailbox : Bytes}

-- Taking a blob back after a failure, as far as no row holds it.
theorem release_stored_spec {α : Type} {refs : List BlobRef} {frame : Rows → Prop} {ref : BlobRef}
    {value : α} {post : α → Books → Prop} (href : ref ∈ refs)
    (hpost : ∀ b, Ledger 0 (Releasing refs frame) b → post value b) :
    Spec setup (Ledger 0 (Holding refs frame)) (do releaseBlobsLocked [ref]; pure value) post := by
  refine .bind (fun _ => Ledger 0 (Releasing refs frame)) ?_ fun _ => .done hpost
  exact (releaseBlobsLocked_spec (List.cons_subset.mpr ⟨href, List.nil_subset _⟩)).entails _
    fun _ h => h.mono fun _ _ hf => hf.releasing

theorem appendLocked_spec (flags : List Bytes) (date : Int) (data : Bytes) :
    Spec setup Accounted (appendLocked setup mailbox flags date data) fun _ => Accounted := by
  refine .bind (Stored setup 0 data [] fun _ => True)
    (storeBlob_spec.weaken (fun _ h => h.holding) fun _ _ h => h) fun stored => ?_
  rcases stored with e | messageID
  · exact .done fun _ h => accounted_of_holding h
  refine .entails (Ledger 0 (Holding [⟨messageID, data.length⟩] fun _ => True))
    (fun _ h => h.2) ?_
  refine .quiet (fun _ _ _ _ h => h) fun uid => ?_
  cases uid with
  | error e =>
    exact release_stored_spec List.mem_cons_self fun _ h => accounted_of_releasing h
  | ok uid =>
    refine .bind _ (.looking (threadOf_calls (fun _ h => h) _)) fun thread =>
      .call (fun _ => Ledger 0 (Holding [⟨messageID, data.length⟩] fun _ => True))
        ?_ fun written => ?_
    · intro w _ _ result b' _ hstep hpre
      exact holding_storeRow (fun _ _ _ _ _ => trivial) hpre
        (hpre.frame.2.1 _ List.mem_cons_self) hstep
    · cases written with
      | error e =>
        exact release_stored_spec List.mem_cons_self fun _ h => accounted_of_releasing h
      | ok _ => exact .done fun _ h => accounted_of_holding h

theorem appendMessageUID_spec (flags : List Bytes) (date : Int) (data : Bytes) :
    Spec setup Accounted (appendMessageUID setup mailbox flags date data) fun _ => Accounted := by
  have hfinish : ∀ uid,
      Spec setup Accounted (appendMessageUID.finish mailbox uid) fun _ => Accounted :=
    fun uid => .looking (finish_calls (fun _ h => h) mailbox uid)
  refine .quiet (fun _ _ _ _ h => h) fun _ => .bind _ (appendLocked_spec flags date data)
    fun appended => .quiet (fun _ _ _ _ h => h) fun _ => ?_
  rcases appended with e | uid
  · exact .skip
  refine .quiet (fun _ _ _ _ h => h.1) fun uids => ?_
  rcases uids with e | uids
  · exact hfinish uid
  dsimp only
  split_ifs
  · exact .skip
  · exact hfinish uid

end Append

section Copy

variable {mailbox : Bytes} {uids : List UInt32} {uid : UInt32} {rows : Rows} {refs : List BlobRef}

def Present (mailbox : Bytes) (uids : List UInt32) (rows : Rows) : Prop :=
  ∀ uid ∈ uids, (rows mailbox uid).isSome

theorem Present.grows (mailbox : Bytes) (uids : List UInt32) : Grows (Present mailbox uids) := by
  intro b box u row h uid huid
  rw [Books.setRow_row]
  split_ifs
  · rfl
  · exact h uid huid

theorem Present.concat (h : Present mailbox uids rows) (huid : (rows mailbox uid).isSome) :
    Present mailbox (uids ++ [uid]) rows := by
  intro u hu
  rcases List.mem_append.mp hu with hu | hu
  · exact h u hu
  · rw [List.mem_singleton.mp hu]
    exact huid

theorem RowsBacked.of_read {blobs : Blobs} {data : Bytes} {blob : Blob} (h : RowsBacked blobs rows)
    (hvalid : isValidMessageID ((rows mailbox uid).getD .empty).messageID = true)
    (hblob : blobs[((rows mailbox uid).getD .empty).messageID]? = some blob)
    (hdata : blob.data = data) :
    (rows mailbox uid).isSome ∧ ((rows mailbox uid).getD .empty).size = data.length := by
  cases hrow : rows mailbox uid with
  | none =>
    rw [hrow] at hvalid
    exact absurd hvalid (by decide)
  | some row =>
    refine ⟨rfl, ?_⟩
    rw [hrow] at hblob
    obtain ⟨found, hfound, hsize⟩ := h mailbox uid row hrow
    rw [Option.getD_some] at hblob ⊢
    rw [show (blobOf row).id = row.messageID from rfl, hblob] at hfound
    cases hfound
    rw [← hdata]
    exact hsize.symm

def CopiedOne (source : Bytes) (uids : List UInt32) (uid : UInt32) (refs : List BlobRef)
    (result : Except MailError (UInt32 × BlobRef)) (b : Books) : Prop :=
  match result with
  | .ok (_, ref) => Ledger 0 (Holding (ref :: refs) (Present source (uids ++ [uid]))) b
  | .error _ => Ledger 0 (Releasing refs fun _ => True) b

theorem holding_weaken {frame : Rows → Prop} {b : Books}
    (h : Ledger 0 (Holding refs frame) b) : Ledger 0 (Releasing refs fun _ => True) b :=
  h.mono fun _ _ hf => ⟨hf.1, hf.releasing.2.1, trivial⟩

theorem copyOneLocked_spec (source dest : Bytes) (uids : List UInt32) (uid : UInt32)
    (refs : List BlobRef) :
    Spec setup (Ledger 0 (Holding refs (Present source uids)))
      (copyOneLocked setup source dest uid) (CopiedOne source uids uid refs) := by
  refine getMessageMetadata_spec (fun e => .done fun _ h => holding_weaken h) fun metadata => ?_
  refine .read (fun result b => ∀ data, result = .ok data →
    isValidMessageID metadata.messageID = true ∧
      ∃ blob, b.blobs[metadata.messageID]? = some blob ∧ blob.data = data)
    (fun _ _ _ _ _ _ _ h => h) fun result => ?_
  rcases result with e | data
  · exact .done fun _ h => holding_weaken h.1.1
  -- From here on the row is known to be there, with the right length.
  refine .assuming (metadata.size = data.length) ?_ fun hsize => ?_
  · rintro b ⟨⟨h, hmeta⟩, hread⟩
    obtain ⟨hvalid, blob, hblob, hdata⟩ := hread data rfl
    subst hmeta
    exact (h.frame.1.of_read hvalid hblob hdata).2
  refine .entails (Ledger 0 (Holding refs (Present source (uids ++ [uid])))) ?_ ?_
  · rintro b ⟨⟨h, hmeta⟩, hread⟩
    obtain ⟨hvalid, blob, hblob, hdata⟩ := hread data rfl
    subst hmeta
    obtain ⟨hused, hrows, hrefs, hpresent⟩ := h
    exact ⟨hused, hrows, hrefs, hpresent.concat (hrows.of_read hvalid hblob hdata).1⟩
  refine .quiet (fun _ _ _ _ h => h) fun newUID => ?_
  rcases newUID with e | newUID
  · exact .done fun _ h => holding_weaken h
  refine .bind _ storeBlob_spec fun stored => ?_
  rcases stored with e | newID
  · exact .done fun _ h => holding_weaken h
  refine .entails (Ledger 0 (Holding (⟨newID, data.length⟩ :: refs)
    (Present source (uids ++ [uid])))) (fun _ h => h.2) ?_
  refine .call (fun _ => Ledger 0 (Holding (⟨newID, data.length⟩ :: refs)
    (Present source (uids ++ [uid])))) ?_ fun written => ?_
  · intro w _ _ result b' _ hstep hpre
    refine holding_storeRow (Present.grows _ _) hpre ?_ hstep
    have hblob := hpre.frame.2.1 _ List.mem_cons_self
    rwa [← hsize] at hblob
  · cases written with
    | error e =>
      refine release_stored_spec List.mem_cons_self fun _ h => ?_
      exact Releasing.subset (List.subset_cons_self _ _)
        (h.mono fun _ _ hf => ⟨hf.1, hf.2.1, trivial⟩)
    | ok _ => exact .done fun _ h => h

theorem copyOne_spec (source dest : Bytes) (uid : UInt32) :
    Spec setup (Ledger 0 (Holding refs (Present source uids)))
      (copyOne setup source dest uid) (CopiedOne source uids uid refs) := by
  exact .quiet (fun _ _ _ _ h => h) fun _ => .bind _ (copyOneLocked_spec source dest uids uid refs)
    fun copied => .quiet (fun _ _ _ _ h => h) fun _ => .done fun _ h => h

theorem deleteMessages_spec (mailbox : Bytes) :
    Spec setup (Ledger 0 (Releasing refs fun _ => True)) (deleteMessages mailbox uids)
      fun _ => Ledger 0 (Releasing refs fun _ => True) := by
  induction uids with
  | nil => exact .skip
  | cons uid rest ih =>
    exact .call (fun _ => Ledger 0 (Releasing refs fun _ => True))
      (fun _ _ _ _ _ _ hstep hpre => releasing_deleteRow hpre hstep) fun _ => ih

def CopiedAll (source : Bytes) (result : Except MailError Copied) (b : Books) : Prop :=
  match result with
  | .ok copied => Ledger 0 (Holding copied.refs (Present source copied.source)) b
  | .error _ => Accounted b

theorem copyEach_spec (source dest : Bytes) (copied : Copied) (uids : List UInt32) :
    Spec setup (Ledger 0 (Holding copied.refs (Present source copied.source)))
      (copyEach setup source dest copied uids) (CopiedAll source) := by
  induction uids generalizing copied with
  | nil => exact .done fun _ h => h
  | cons uid rest ih =>
    refine .bind _ (copyOne_spec source dest uid) fun one => ?_
    cases one with
    | error e =>
      refine .bind (fun _ => Ledger 0 (Releasing copied.refs fun _ => True)) ?_ fun _ =>
        .done fun _ h => accounted_of_releasing h
      exact .bind _ (deleteMessages_spec dest) fun _ =>
        releaseBlobs_spec (List.Subset.refl _)
    | ok one =>
      refine (ih _).entails _ fun b h => h.mono fun _ _ hf => ⟨hf.1, fun ref href => ?_, hf.2.2⟩
      rcases List.mem_append.mp href with href | href
      · exact hf.2.1 ref (List.mem_cons_of_mem _ href)
      · rw [List.mem_singleton.mp href]
        exact hf.2.1 _ List.mem_cons_self

def CopyReported (source : Bytes) (result : Except MailError (UInt32 × Copied)) (b : Books) : Prop :=
  match result with
  | .ok (_, copied) => Ledger 0 (Holding copied.refs (Present source copied.source)) b
  | .error _ => Accounted b

theorem copyMessagesUIDs_spec {source dest seqSet : Bytes} :
    Spec setup Accounted (copyMessagesUIDs setup source dest seqSet) (CopyReported source) := by
  unfold copyMessagesUIDs
  split
  · exact .done fun _ h => h
  refine .bind _ (.looking (readUIDs_calls (fun _ h => h) source)) fun uids => ?_
  rcases uids with e | uids
  · exact .done fun _ h => h
  refine .bind (CopiedAll source) ((copyEach_spec source dest _ _).entails _ ?_)
    fun copied => ?_
  · exact fun b h => h.mono fun _ _ hf => ⟨hf, by simp, by simp [Present]⟩
  · cases copied with
    | error e => exact .done fun _ h => h
    | ok copied =>
      refine .quiet (fun _ _ _ _ h => h) fun validity => ?_
      cases validity <;> exact .done fun _ h => h

end Copy

section Move

-- The rows are still there, so that what is written back is what was read.
theorem flagMoved_spec (source : Bytes) (uids : List UInt32) :
    Spec setup (Ledger 0 (Holding [] (Present source uids))) (flagMoved source uids)
      fun _ => Accounted := by
  induction uids with
  | nil => exact .done fun _ h => accounted_of_holding h
  | cons uid rest ih =>
    have hrest : Spec setup (Ledger 0 (Holding [] (Present source (uid :: rest))))
        (flagMoved source rest) fun _ => Accounted :=
      ih.entails _ fun b h => h.mono fun _ _ hf =>
        ⟨hf.1, hf.2.1, fun u hu => hf.2.2 u (List.mem_cons_of_mem _ hu)⟩
    refine getMessageMetadata_spec (fun e => .done fun _ h => accounted_of_holding h)
      fun metadata => ?_
    dsimp only
    split_ifs
    · exact hrest.entails _ fun _ h => h.1
    refine .call (fun _ => Ledger 0 (Holding [] (Present source (uid :: rest))))
      ?_ fun written => ?_
    · rintro w _ _ result b' _ hstep ⟨hpre, hmeta⟩
      refine holding_storeRow (Present.grows _ _) hpre ?_ hstep
      obtain ⟨row, hrow⟩ := Option.isSome_iff_exists.mp
        (hpre.frame.2.2 uid List.mem_cons_self)
      have hread : metadata = row := by rw [hmeta, hrow, Option.getD_some]
      rw [hread]
      exact hpre.frame.1 source uid row hrow
    · cases written with
      | error e => exact .done fun _ h => accounted_of_holding h
      | ok _ => exact hrest

theorem moveMessagesUIDs_spec (source dest seqSet : Bytes) :
    Spec setup Accounted (moveMessagesUIDs setup source dest seqSet) fun _ => Accounted := by
  refine .bind _ copyMessagesUIDs_spec fun reported => ?_
  rcases reported with e | reported
  · exact .skip
  refine .bind (fun _ => Accounted) ((flagMoved_spec source _).entails _ fun b h =>
    h.mono fun _ _ hf => ⟨hf.1, by simp, hf.2.2⟩) fun flagged => ?_
  cases flagged <;> exact .skip

end Move

section Expunge

variable (mailbox : Bytes)

-- The references that are answered know the lengths of their files.
theorem expungeEach_spec (targets : List (Nat × UInt32)) (refs : List BlobRef) :
    Spec setup (Ledger 0 (Releasing refs fun _ => True)) (expungeEach mailbox targets)
      fun removed => Ledger 0 (Releasing (removed.map (fun r => r.2.2) ++ refs) fun _ => True) := by
  induction targets generalizing refs with
  | nil => exact .done fun _ h => h
  | cons target rest ih =>
    refine getMessageMetadata_spec (fun e => ih refs) fun metadata => ?_
    dsimp only
    split_ifs
    · refine .call (fun _ => Ledger 0 (Releasing (blobOf metadata :: refs) fun _ => True))
        ?_ fun deleted => ?_
      · rintro w _ _ result b' _ hstep ⟨hpre, hmeta⟩
        exact releasing_deleteRow (releasing_read hpre hmeta) hstep
      · cases deleted with
        | error e =>
          exact (ih refs).entails _ fun _ h => Releasing.subset (List.subset_cons_self _ _) h
        | ok _ =>
          refine .bind _ (ih (blobOf metadata :: refs)) fun removed => .done fun _ h =>
            Releasing.subset ?_ h
          simp [blobOf]
    · exact (ih refs).entails _ fun _ h => h.1

theorem expungeReport_spec : Spec setup Accounted (expungeReport mailbox) fun _ => Accounted := by
  refine .quiet (fun _ _ _ _ h => h) fun _ => .bind (fun _ => Accounted) ?_ fun report =>
    .quiet (fun _ _ _ _ h => h) fun _ => .skip
  refine .quiet (fun _ _ _ _ h => h.1) fun all => ?_
  rcases all with e | all
  · exact .skip
  refine .bind _ ((expungeEach_spec mailbox (positions 1 all) []).entails _
    fun _ h => h.releasing) fun removed => ?_
  exact .bind _ (releaseBlobs_spec (List.subset_append_left _ _)) fun _ =>
    .done fun _ h => accounted_of_releasing h

theorem expungeUIDs_spec (uids : List UInt32) :
    Spec setup Accounted (expungeUIDs mailbox uids) fun _ => Accounted := by
  refine .quiet (fun _ _ _ _ h => h) fun _ => .quiet (fun _ _ _ _ h => h.1) fun _ => ?_
  refine .bind _ ((expungeEach_spec mailbox (positions 1 uids) []).entails _
    fun _ h => h.releasing) fun removed => ?_
  refine .bind _ (releaseBlobs_spec (List.subset_append_left _ _)) fun _ => ?_
  exact .perform fun _ _ _ _ _ _ h hpre => h ▸ accounted_of_releasing hpre

theorem accounted_composes :
    Composes Call.Reads fun _ program => Spec setup Accounted program fun _ => Accounted where
  reads _ h := h
  looking := .looking
  bind hp hr := .bind _ hp hr

theorem moveLive_spec (source dest seqSet : Bytes) :
    Spec setup Accounted (moveLive setup source dest seqSet) fun _ => Accounted := by
  refine .bind _ (moveMessagesUIDs_spec source dest seqSet) fun moved => ?_
  rcases moved with e | moved
  · exact .skip
  dsimp only
  split_ifs
  · exact .skip
  · exact accounted_composes.expungeUIDSubset fun uids _ => expungeUIDs_spec source uids

end Expunge

section Mailboxes

variable (mailbox : Bytes)

theorem collectRefs_spec (uids : List UInt32) (refs : List BlobRef) :
    Spec setup (Ledger 0 (Releasing refs fun _ => True)) (collectRefs mailbox uids)
      fun found => Ledger 0 (Releasing (found ++ refs) fun _ => True) := by
  induction uids generalizing refs with
  | nil => exact .done fun _ h => h
  | cons uid rest ih =>
    refine getMessageMetadata_spec (fun e => ih refs) fun metadata => ?_
    refine .bind _ ((ih (blobOf metadata :: refs)).entails _ fun _ h => releasing_read h.1 h.2)
      fun found => .done fun _ h => Releasing.subset ?_ h
    simp [blobOf]

theorem mailboxRefs_spec :
    Spec setup Accounted (mailboxRefs mailbox)
      fun refs => Ledger 0 (Releasing refs fun _ => True) := by
  refine .quiet (fun _ _ _ _ h => h.1) fun uids => ?_
  cases uids with
  | error e => exact .done fun _ h => h.releasing
  | ok uids =>
    refine (collectRefs_spec mailbox uids []).weaken (fun _ h => h.releasing) fun _ _ h => ?_
    rwa [List.append_nil] at h

theorem deleteMailbox_spec : Spec setup Accounted (deleteMailbox mailbox) fun _ => Accounted := by
  refine .bind _ (mailboxRefs_spec mailbox) fun refs => ?_
  refine .call (fun _ => Ledger 0 (Releasing refs fun _ => True)) ?_ fun deleted => ?_
  · rintro w _ _ result b' _ hstep ⟨hused, hrows, hrefs, _⟩
    rcases hstep with ⟨_, _, rfl⟩ | ⟨_, rfl⟩
    · exact ⟨hused, hrows, hrefs, trivial⟩
    refine ⟨hused, hrows.mono fun box u row hrow => ?_, hrefs, trivial⟩
    rw [Books.dropMailbox_row] at hrow
    split_ifs at hrow
    exact hrow
  · cases deleted with
    | error e => exact .done fun _ h => accounted_of_releasing h
    | ok _ =>
      exact .bind _ (releaseBlobs_spec (List.Subset.refl _)) fun _ =>
        .done fun _ h => accounted_of_releasing h

theorem rollbackEach_spec (uids : List UInt32) (refs : List BlobRef) :
    Spec setup (Ledger 0 (Releasing refs fun _ => True)) (rollbackEach mailbox uids)
      fun found => Ledger 0 (Releasing (found ++ refs) fun _ => True) := by
  induction uids generalizing refs with
  | nil => exact .done fun _ h => h
  | cons uid rest ih =>
    refine getMessageMetadata_spec (fun e => ih refs) fun metadata => ?_
    refine .call (fun _ => Ledger 0 (Releasing (blobOf metadata :: refs) fun _ => True))
      ?_ fun deleted => ?_
    · rintro w _ _ result b' _ hstep ⟨hpre, hmeta⟩
      exact releasing_deleteRow (releasing_read hpre hmeta) hstep
    · cases deleted with
      | error e =>
        exact (ih refs).entails _ fun _ h => Releasing.subset (List.subset_cons_self _ _) h
      | ok _ =>
        refine .bind _ (ih (blobOf metadata :: refs)) fun found => .done fun _ h =>
          Releasing.subset ?_ h
        simp [blobOf]

theorem rollbackAppended_spec (uids : List UInt32) :
    Spec setup Accounted (rollbackAppended mailbox uids) fun _ => Accounted := by
  refine .bind _ ((rollbackEach_spec mailbox uids []).entails _ fun _ h => h.releasing)
    fun refs => ?_
  exact (releaseBlobs_spec (List.subset_append_left _ _)).weaken (fun _ h => h)
    fun _ _ h => accounted_of_releasing h

end Mailboxes

section Delivery

variable {known : Bool} {data : Bytes}

-- Delivery charges and releases as APPEND does, since its amounts are never
-- negative.
theorem reserveDelivery_spec {refs : List BlobRef} {frame : Rows → Prop} :
    Spec setup (fun b => Ledger 0 (Holding refs frame) b ∧
        known = b.blobs[setup.hash data]?.isSome)
      (reserveDelivery (charge known data)) fun result b => match result with
        | .ok _ => Charged setup known data refs frame b
        | .error _ => Ledger 0 (Holding refs frame) b := by
  have hsame : reserveDelivery (charge known data) = adjustQuota (charge known data) := by
    have hnonneg := charge_nonneg known data
    unfold reserveDelivery adjustQuota
    split_ifs
    · omega
    · rfl
    · rfl
    · omega
  rw [hsame]
  exact adjustQuota_charge_spec

theorem releaseDelivery_spec {owed : Int} {frame : Blobs → Rows → Prop} (howed : 0 ≤ owed) :
    Spec setup (Ledger owed frame) (releaseDelivery owed) fun _ => Ledger 0 frame := by
  unfold releaseDelivery
  split_ifs
  · exact .bind _ (incrementQuota_spec howed (by omega)) fun _ => .done fun _ h => h.settled howed
  · rw [show owed = 0 by omega]
    exact .skip

def Unheld (setup : Setup) (known : Bool) (data : Bytes) (rows : Rows) : Prop :=
  known = false → ¬ Referenced rows (setup.hash data)

def Delivering (setup : Setup) (known : Bool) (data : Bytes) : Books → Prop :=
  Ledger 0 (Holding [⟨setup.hash data, data.length⟩] (Unheld setup known data))

theorem metaFail_triple :
    Triple (machine setup) (Settled setup)
      (fun w => Delivering setup known data (books setup w.state) ∧ afterFailedRow w.log = true)
      (metaFail (setup.hash data) (charge known data))
      fun _ w => Accounted (books setup w.state) := by
  unfold metaFail
  split_ifs with hpos
  · -- Something was charged, so the file is new and the charge is its length.
    have hunknown : known = false := by
      cases known with
      | false => rfl
      | true => exact absurd hpos (by simp [charge])
    have hcharge : charge known data = data.length := by simp [charge, hunknown]
    refine Triple.perform_bind (S := sig) (fun _ w => Ledger (charge known data) RowsBacked
      (books setup w.state)) ?_ fun removed => ?_
    · rintro w thread choice result w' hok hexec ⟨⟨hused, hrows, hrefs, hunheld⟩, hlog⟩
      obtain ⟨blob, hblob, hsize⟩ := hrefs _ List.mem_cons_self
      rcases world_books hexec with ⟨_, _, _, hgone⟩ | ⟨_, _, found, hfound, hbooks⟩
      · rw [hgone (hok hlog) (setup.hash_valid data)] at hblob
        cases hblob
      rw [hfound] at hblob
      cases hblob
      rw [hbooks]
      refine ⟨?_, hrows.erase (hunheld hunknown)⟩
      simp only at hsize
      rw [Books.removeBlob_account, Books.removeBlob_blobs, usage_erase hfound]
      omega
    · refine Triple.bind _ (incrementQuota_spec (charge_nonneg known data) (by omega)) fun _ => ?_
      exact Triple.done fun w h => h.settled (charge_nonneg known data)
  · exact Triple.done fun w h => accounted_of_holding h.1

theorem ensureFolder_spec {pre : Books → Prop} (folder : Bytes) :
    Spec setup pre (ensureFolder folder) fun _ => pre := by
  unfold ensureFolder
  split_ifs
  · exact .quiet (fun _ _ _ _ h => h) fun _ => .skip
  · exact .skip

theorem deliverRow_spec (folder : Bytes) (flags : List Bytes) :
    Spec setup (Delivering setup known data)
      (deliverRow setup folder flags data (setup.hash data) (charge known data))
      fun _ => Accounted := by
  have hfail : ∀ e : MailError, Triple (machine setup) (Settled setup)
      (fun w => Delivering setup known data (books setup w.state) ∧ afterFailedRow w.log = true)
      (do metaFail (setup.hash data) (charge known data); pure (.error e) : Prog _)
      fun (_ : Except MailError UInt32) w => Accounted (books setup w.state) :=
    fun e => Triple.bind _ metaFail_triple fun _ => Triple.done fun _ h => h
  refine .bind _ (ensureFolder_spec folder) fun _ => ?_
  refine Triple.perform_bind (S := sig) (fun result w =>
    Delivering setup known data (books setup w.state) ∧
      (result.isOk = false → afterFailedRow w.log = true)) ?_ fun uid => ?_
  · intro w thread choice result w' _ hexec hpre
    have hbooks : books setup w'.state = books setup w.state := world_books hexec
    rw [hbooks, (World.exec_eq_some.mp hexec).2]
    refine ⟨hpre, fun hr => ?_⟩
    cases result with
    | error e => rfl
    | ok uid => cases hr
  rcases uid with e | uid
  · exact (hfail _).entails _ fun w h => ⟨h.1, h.2 rfl⟩
  refine Triple.entails (fun w => Delivering setup known data (books setup w.state))
    (fun _ h => h.1) ?_
  refine Spec.quiet (fun _ _ _ _ h => h) fun threadID =>
    Spec.quiet (fun _ _ _ _ h => h) fun date => ?_
  refine Triple.perform_bind (S := sig) (fun result w => if result.isOk
    then Accounted (books setup w.state)
    else Delivering setup known data (books setup w.state) ∧ afterFailedRow w.log = true)
    ?_ fun written => ?_
  · intro w thread choice result w' _ hexec hpre
    cases result with
    | ok _ =>
      have hany : Ledger 0 (Holding [⟨setup.hash data, data.length⟩] fun _ => True)
          (books setup w.state) := hpre.mono fun _ _ hf => ⟨hf.1, hf.2.1, trivial⟩
      exact accounted_of_holding (holding_storeRow (fun _ _ _ _ _ => trivial) hany
        (hpre.frame.2.1 _ List.mem_cons_self) (world_books hexec))
    | error e =>
      rcases world_books hexec with ⟨_, _, hbooks⟩ | ⟨he, _⟩
      · rw [hbooks, (World.exec_eq_some.mp hexec).2]
        exact ⟨hpre, rfl⟩
      · cases he
  · cases written with
    | error e => exact hfail _
    | ok _ => exact Triple.done fun _ h => h

theorem deliverLocalHop_spec (folder : Bytes) (flags : List Bytes) :
    Spec setup Accounted (deliverLocalHop setup folder flags data) fun _ => Accounted := by
  refine .quiet (fun _ _ _ _ h => h) fun _ => .bind (fun _ => Accounted) ?_ fun _ =>
    .quiet (fun _ _ _ _ h => h) fun _ => .skip
  refine .quiet (fun _ _ _ _ h => h) fun active => ?_
  split_ifs
  · refine messageExists_spec fun known => ?_
    refine .entails (fun b => Ledger 0 (Holding [] (Unheld setup known data)) b ∧
      known = b.blobs[setup.hash data]?.isSome) ?_ ?_
    · rintro b ⟨h, hknown⟩
      refine ⟨⟨h.used, h.frame, by simp, fun hu => h.frame.not_referenced ?_⟩, hknown⟩
      rwa [hu, eq_comm, Option.isSome_eq_false_iff, Option.isNone_iff_eq_none] at hknown
    refine .bind _ reserveDelivery_spec fun reserved => ?_
    rcases reserved with e | _
    · exact .done fun _ h => accounted_of_holding h
    refine .bind _ storeMessage_spec fun stored => ?_
    cases stored with
    | error e =>
      exact .bind _ (releaseDelivery_spec (charge_nonneg known data)) fun _ =>
        .done fun _ h => accounted_of_holding h
    | ok messageID =>
      refine .assuming _ (fun _ h => h.1) fun hid => ?_
      subst hid
      exact (deliverRow_spec folder flags).entails _ fun _ h => h.2
  · exact .skip

end Delivery

theorem Operation.program_spec (op : Operation) :
    Spec setup Accounted (op.program setup) fun _ => Accounted := by
  cases op with
  | append mailbox flags date data =>
    exact .bind _ (appendMessageUID_spec flags date data) fun _ => .skip
  | copy source dest seqSet =>
    refine .bind _ copyMessagesUIDs_spec fun copied => .done fun _ h => ?_
    cases copied with
    | error e => exact h
    | ok copied => exact accounted_of_holding h
  | move source dest seqSet =>
    exact .bind _ (moveLive_spec source dest seqSet) fun _ => .skip
  | expungeReport mailbox =>
    exact .bind _ (expungeReport_spec mailbox) fun _ => .skip
  | expungeUIDs mailbox uids => exact expungeUIDs_spec mailbox uids
  | deleteMailbox mailbox =>
    exact .bind _ (deleteMailbox_spec mailbox) fun _ => .skip
  | rollbackAppended mailbox uids => exact rollbackAppended_spec mailbox uids
  | deliver folder flags data =>
    exact .bind _ (deliverLocalHop_spec folder flags) fun _ => .skip

theorem Operation.session_spec (ops : List Operation) :
    Spec setup Accounted (session setup ops) fun _ => Accounted := by
  induction ops with
  | nil => exact .skip
  | cons op rest ih => exact .bind _ op.program_spec fun _ => ih

-- No release would take the counter below zero, and it is not there already.
def Unclamped (w : World sig State) (_ : Nat) (c : Call) (_ : Choice) : Prop :=
  match c with
  | .incrementQuota delta =>
    0 ≤ w.state.account.quotaUsed ∧ 0 ≤ w.state.account.quotaUsed + delta
  | _ => True

instance (w : World sig State) (thread : Nat) (c : Call) (choice : Choice) :
    Decidable (Unclamped w thread c choice) := by
  apply @Call.casesOn (fun c => Decidable (Unclamped w thread c choice)) c
  case incrementQuota =>
    exact fun delta => inferInstanceAs (Decidable (0 ≤ w.state.account.quotaUsed ∧
      0 ≤ w.state.account.quotaUsed + delta))
  all_goals
    intros
    exact isTrue trivial

def QuotaConserved (setup : Setup) : Prop :=
  ∀ ops thread w w', Exec (machine setup) Unclamped thread (Operation.session setup ops) w () w' →
    w.state.account.quotaUsed = w.state.blobs.usage →
    w'.state.account.quotaUsed = w'.state.blobs.usage

def leakOperations : List Operation :=
  [.append (bytes "INBOX") [deletedFlag] 0 (bytes "0"), .expungeReport (bytes "INBOX")]

def leakChoices : List Choice :=
  List.replicate 17 demoChoice ++
    [{ demoChoice with order := [demoSetup.hash (bytes "0")] }, demoChoice,
      { demoChoice with fault := true }, demoChoice, demoChoice]

theorem quotaConserved_fails_release : ¬ QuotaConserved demoSetup := by
  intro h
  have hrun : ((Operation.session demoSetup leakOperations).execWith (machine demoSetup) Unclamped 0
      ⟨emptyState, []⟩ leakChoices).any (fun out =>
        out.2.state.account.quotaUsed = 1 ∧ out.2.state.blobs.usage = 0) = true := by
    decide
  obtain ⟨⟨value, w⟩, hexec, hleak⟩ := (Option.any_eq_true _ _).mp hrun
  have hsame := h leakOperations 0 _ w (Exec.of_execWith hexec) rfl
  simp only [decide_eq_true_eq] at hleak
  rw [hleak.1, hleak.2] at hsame
  exact absurd hsame (by decide)

-- As long as what is given back is given back, the counter is the size of the
-- stored files after any operations, whichever of them fail.
theorem quota_conserved_of_settled (setup : Setup) (ops : List Operation) (thread : Nat)
    (w w' : World sig State)
    (hrun : Exec (machine setup) (Settled setup) thread (Operation.session setup ops) w () w')
    (hrows : RowsBacked w.state.blobs fun mailbox uid => w.state.db.row setup.user mailbox uid)
    (hused : w.state.account.quotaUsed = w.state.blobs.usage) :
    w'.state.account.quotaUsed = w'.state.blobs.usage := by
  have hstart : Accounted (books setup w.state) := ⟨by rw [Int.add_zero]; exact hused, hrows⟩
  have hend := (Operation.session_spec ops thread w () w' hrun hstart).used
  rwa [Int.add_zero] at hend

def paidOperations : List Operation :=
  [.append (bytes "INBOX") [deletedFlag] 0 (bytes "0"), .deliver (bytes "INBOX") [] (bytes "1"),
    .expungeReport (bytes "INBOX")]

def paidChoices : List Choice :=
  List.replicate 28 demoChoice ++
    { demoChoice with order := [demoSetup.hash (bytes "0")] } :: List.replicate 4 demoChoice

theorem quota_conserved_append_deliver_expunge : ∃ w',
    Exec (machine demoSetup) (Settled demoSetup) 0 (Operation.session demoSetup paidOperations)
      ⟨emptyState, []⟩ () w' ∧
    w'.state.blobs.usage = 1 ∧ w'.state.account.quotaUsed = w'.state.blobs.usage := by
  have hrun : ((Operation.session demoSetup paidOperations).execWith (machine demoSetup)
      (Settled demoSetup) 0 ⟨emptyState, []⟩ paidChoices).any (fun out =>
        out.2.state.blobs.usage = 1) = true := by
    decide
  obtain ⟨⟨value, w⟩, hexec, husage⟩ := (Option.any_eq_true _ _).mp hrun
  have hexec := Exec.of_execWith hexec
  refine ⟨w, hexec, by simpa using husage, ?_⟩
  refine quota_conserved_of_settled demoSetup paidOperations 0 _ w hexec ?_ rfl
  intro mailbox uid row hrow
  simp [emptyState, Database.empty, Database.row, Database.messagesOf] at hrow

end UMail.Mailstore
