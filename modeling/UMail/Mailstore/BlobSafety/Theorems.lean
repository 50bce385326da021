import UMail.Mailstore.BlobSafety
import UMail.Mailstore.Operations.Calls

namespace UMail.Mailstore

open Concurrency UMail.Storage UMail.Db UMail.Imap

structure Inside (setup : Setup) (thread : Nat) (l : Lock) (ids free : List Bytes)
    (w : World sig State) : Prop where
  held : w.state.held l = some thread
  there : ∀ id ∈ ids, (books setup w.state).blobs[id]?.isSome
  free : ∀ id ∈ free, ¬ Referenced (books setup w.state).row id

def Lock.Critical (l : Lock) : Prop := l = .guard ∨ l = .delivery

abbrev Safely {α : Type} (setup : Setup) (thread : Nat) (pre : World sig State → Prop)
    (program : Prog α) (post : α → World sig State → Prop) : Prop :=
  (blobDiscipline setup).Guards thread pre program post

-- Safe for a session that holds neither of the locks.
abbrev Outside {α : Type} (setup : Setup) (thread : Nat) (program : Prog α) : Prop :=
  Safely setup thread (fun _ => True) program fun _ _ => True

variable {setup : Setup} {thread : Nat} {l : Lock} {ids free : List Bytes}

section Rules

variable {w : World sig State} {c : Call} {pre : World sig State → Prop}
  {α : Type} {post : α → World sig State → Prop} {program : Prog α} {rest : Unit → Prog α}

theorem Inside.owns (hl : l.Critical) (h : Inside setup thread l ids free w) : Owns thread w := by
  rcases hl with rfl | rfl
  · exact .inl h.held
  · exact .inr h.held

theorem Lock.Critical.stable (hl : l.Critical) :
    (blobDiscipline setup).Stable thread (Inside setup thread l ids free) := by
  rintro w w' ⟨hlocks, hquiet⟩ h
  have hkept := hquiet (h.owns hl)
  refine ⟨?_, fun id hid => hkept.present id (h.there id hid),
    fun id hid hr => h.free id hid (hkept.refs id hr)⟩
  rcases hl with rfl | rfl
  · exact hlocks.1.mp h.held
  · exact hlocks.2.mp h.held

theorem Inside.forget (h : Inside setup thread l ids free w) :
    Inside setup thread l [] [] w := ⟨h.held, by simp, by simp⟩

theorem outside_stable : (blobDiscipline setup).Stable thread fun _ => True :=
  fun _ _ _ _ => trivial

theorem guards_harmless {rest : c.Result → Prog α}
    (hstable : (blobDiscipline setup).Stable thread pre) (hc : Harmless c)
    (hrest : ∀ result, Safely setup thread pre (rest result) post) :
    Safely setup thread pre (invoke c >>= rest) post := by
  refine .perform_bind hstable (fun _ => pre) ?_ hrest
  intro w choice result w' hinv hok hexec hpre
  obtain ⟨hinv', hguar, hrely⟩ := harmless_step hc hinv hok hexec
  exact ⟨hinv', hguar, hstable w w' hrely hpre⟩

theorem guards_of_calls
    (hstable : (blobDiscipline setup).Stable thread pre) (h : program.Calls Harmless) :
    Safely setup thread pre program fun _ => pre := by
  induction program with
  | done value => exact .skip
  | call c next ih => exact guards_harmless hstable h.1 fun result => ih result (h.2 result)

theorem outside_calls (h : program.Calls Harmless) :
    Outside setup thread program := guards_of_calls outside_stable h

theorem harmless_of_reads (c : Call) (h : c.Reads) : Harmless c := by
  cases c
  case lock | unlock | storeMessage | storeMessageWithQuota | deleteMessageUnchecked | removeOrphan
      | storeMessageMetadata | updateMessageMetadataFunc => exact False.elim h
  all_goals trivial

section Steps

variable {choice : Choice} {result : c.Result} {w' : World sig State}
  (hinv : (blobDiscipline setup).inv w)
  (hexec : w.exec (machine setup) thread c choice = some (result, w'))
include hinv hexec

-- The owner of a lock changes files and references as it likes, as long as
-- every row keeps its file.
theorem owner_step (hl : l.Critical) (h : Inside setup thread l ids free w)
    (hheld : w'.state.held = w.state.held) (hpresent : BlobsPresent (books setup w'.state)) :
    (blobDiscipline setup).inv w' ∧ (blobDiscipline setup).guar thread w w' := by
  refine ⟨⟨hpresent, by rw [hheld]; exact hinv.2⟩, fun other hne => ?_, fun hnot => ?_⟩
  · exact ⟨held_other hexec hne, held_other hexec hne⟩
  · exact absurd (h.owns hl) hnot

theorem lock_step (hbooks : books setup w'.state = books setup w.state)
    (hfree : w'.state.held .guard = none ∨ w'.state.held .delivery = none) :
    (blobDiscipline setup).inv w' ∧ (blobDiscipline setup).guar thread w w' := by
  refine ⟨⟨hbooks ▸ hinv.1, hfree⟩, fun other hne => ?_, fun _ => hbooks ▸ .refl _⟩
  exact ⟨held_other hexec hne, held_other hexec hne⟩

end Steps

theorem guards_lock (hl : l.Critical)
    (hrest : ∀ result, Safely setup thread (Inside setup thread l [] []) (rest result) post) :
    Safely setup thread (fun _ => True) (invoke (.lock l) >>= rest) post := by
  refine .perform_bind outside_stable (fun _ => Inside setup thread l [] []) ?_ hrest
  intro w choice result w' hinv hok hexec _
  have hheld := world_held hexec
  have hfree : w'.state.held .guard = none ∨ w'.state.held .delivery = none := by
    rw [hheld]
    rcases hl with rfl | rfl
    · exact .inr hok
    · exact .inl hok
  obtain ⟨hinv', hguar⟩ := lock_step hinv hexec (world_books hexec) hfree
  exact ⟨hinv', hguar, by rw [hheld]; simp [heldEffect], by simp, by simp⟩

theorem guards_unlock
    (hl : l.Critical) (hrest : ∀ result, Safely setup thread (fun _ => True) (rest result) post) :
    Safely setup thread (Inside setup thread l ids free) (invoke (.unlock l) >>= rest) post := by
  refine .perform_bind hl.stable (fun _ _ => True) ?_ hrest
  intro w choice result w' hinv _ hexec _
  have hfree : w'.state.held .guard = none ∨ w'.state.held .delivery = none := by
    rw [world_held hexec]
    rcases hl with rfl | rfl
    · exact .inl rfl
    · exact .inr rfl
  obtain ⟨hinv', hguar⟩ := lock_step hinv hexec (world_books hexec) hfree
  exact ⟨hinv', hguar, trivial⟩

theorem guards_perform {post : c.Result → World sig State → Prop}
    (hstable : (blobDiscipline setup).Stable thread pre)
    (hcall : ∀ w choice result w', (blobDiscipline setup).inv w →
      Exclusive setup w thread c choice →
      w.exec (machine setup) thread c choice = some (result, w') → pre w →
      (blobDiscipline setup).inv w' ∧ (blobDiscipline setup).guar thread w w' ∧ post result w') :
    Safely setup thread pre (invoke c) post := by
  exact .perform_bind hstable post hcall fun _ => .done fun _ h => h

end Rules

section Files

def StoredInside {ε : Type} (setup : Setup) (thread : Nat) (l : Lock) (data : Bytes)
    (ids free : List Bytes) (result : Except ε Bytes) (w : World sig State) : Prop :=
  match result with
  | .ok id => id = setup.hash data ∧ Inside setup thread l (id :: ids) free w
  | .error _ => Inside setup thread l ids free w

variable {choice : Choice} {w w' : World sig State}
  {c : Call} {result : c.Result} {data id : Bytes} {refs : List BlobRef}

theorem inside_of_blobStored {stored : Except BlobError Bytes} (hl : l.Critical)
    (hinv : (blobDiscipline setup).inv w)
    (h : Inside setup thread l ids free w)
    (hexec : w.exec (machine setup) thread c choice = some (result, w'))
    (hheld : w'.state.held = w.state.held)
    (hstored : BlobStored setup data stored (books setup w.state) (books setup w'.state)) :
    (blobDiscipline setup).inv w' ∧ (blobDiscipline setup).guar thread w w' ∧
      StoredInside setup thread l data ids free stored w' := by
  rcases hstored with ⟨e, rfl, hbooks⟩ | ⟨rfl, blob, _, hbooks⟩
  · have hpresent : BlobsPresent (books setup w'.state) := hbooks ▸ hinv.1
    obtain ⟨hinv', hguar⟩ := owner_step hinv hexec hl h hheld hpresent
    exact ⟨hinv', hguar, by rw [hheld]; exact h.held, hbooks ▸ h.there, hbooks ▸ h.free⟩
  have hgrow : ∀ id : Bytes, (books setup w.state).blobs[id]?.isSome →
      (books setup w'.state).blobs[id]?.isSome := by
    intro id hid
    rw [hbooks, Books.putBlob_blobs, Std.ExtTreeMap.getElem?_insert]
    split_ifs
    · rfl
    · exact hid
  have hrows : (books setup w'.state).row = (books setup w.state).row := by
    rw [hbooks, Books.putBlob_row]
  have hpresent : BlobsPresent (books setup w'.state) := fun id hid =>
    hgrow id (hinv.1 id (hrows ▸ hid))
  obtain ⟨hinv', hguar⟩ := owner_step hinv hexec hl h hheld hpresent
  refine ⟨hinv', hguar, rfl, by rw [hheld]; exact h.held, fun id hid => ?_, hrows ▸ h.free⟩
  rcases List.mem_cons.mp hid with rfl | hid
  · rw [hbooks, Books.putBlob_blobs, Std.ExtTreeMap.getElem?_insert_self]
    rfl
  · exact hgrow id (h.there id hid)

theorem storeMessage_safely (hl : l.Critical) :
    Safely setup thread (Inside setup thread l ids free) (invoke (.storeMessage data))
      (StoredInside setup thread l data ids free) :=
  guards_perform hl.stable fun _ _ _ _ hinv _ hexec h =>
    inside_of_blobStored hl hinv h hexec (world_held hexec) (world_books hexec)

theorem storeWithinLimit_safely (hl : l.Critical) (data : Bytes) :
    Safely setup thread (Inside setup thread l ids free) (storeWithinLimit data)
      (StoredInside setup thread l data ids free) := by
  refine guards_harmless hl.stable trivial fun limit => ?_
  split_ifs
  · refine guards_harmless hl.stable trivial fun limit => ?_
    exact guards_perform hl.stable fun _ _ _ _ hinv _ hexec h =>
      inside_of_blobStored hl hinv h hexec (world_held hexec) (world_books hexec)
  · exact storeMessage_safely hl

theorem adjustQuota_safely (hl : l.Critical) (delta : Int) :
    Safely setup thread (Inside setup thread l ids free) (adjustQuota delta)
      fun _ => Inside setup thread l ids free :=
  guards_of_calls hl.stable (adjustQuota_calls (fun _ => trivial) delta)

theorem storeBlob_safely (hl : l.Critical) :
    Safely setup thread (Inside setup thread l ids free) (storeBlob setup data)
      (StoredInside setup thread l data ids free) := by
  refine guards_harmless hl.stable trivial fun known => ?_
  refine .bind _ (adjustQuota_safely hl _) fun reserved => ?_
  rcases reserved with e | _
  · exact .done fun _ h => h
  refine .bind _ (storeWithinLimit_safely hl data) fun stored => ?_
  cases stored with
  | error e => exact .bind _ (adjustQuota_safely hl _) fun _ => .done fun _ h => h
  | ok id => exact .done fun _ h => h

theorem inside_of_removed (hl : l.Critical)
    (hinv : (blobDiscipline setup).inv w) (h : Inside setup thread l ids free w) (hid : id ∈ free)
    (hexec : w.exec (machine setup) thread c choice = some (result, w'))
    (hheld : w'.state.held = w.state.held) (hremoved : books setup w'.state = books setup w.state ∨
      books setup w'.state = (books setup w.state).removeBlob id) :
    (blobDiscipline setup).inv w' ∧ (blobDiscipline setup).guar thread w w' ∧
      Inside setup thread l [] free w' := by
  have hrows : (books setup w'.state).row = (books setup w.state).row := by
    rcases hremoved with hbooks | hbooks
    · rw [hbooks]
    · rw [hbooks, Books.removeBlob_row]
  have hpresent : BlobsPresent (books setup w'.state) := by
    intro other hother
    rw [hrows] at hother
    have hold := hinv.1 other hother
    rcases hremoved with hbooks | hbooks
    · rw [hbooks]
      exact hold
    · have hne : id ≠ other := fun he => h.free id hid (he ▸ hother)
      rw [hbooks]
      simpa [hne] using hold
  obtain ⟨hinv', hguar⟩ := owner_step hinv hexec hl h hheld hpresent
  exact ⟨hinv', hguar, by rw [hheld]; exact h.held, by simp, hrows ▸ h.free⟩

theorem releaseOne_safely (hl : l.Critical) (hid : id ∈ free) (size : Int) :
    Safely setup thread (Inside setup thread l [] free) (releaseOne id size)
      fun _ => Inside setup thread l [] free := by
  refine .bind _ (guards_of_calls hl.stable
    (releaseSize_calls (fun _ => trivial) id)) fun size => ?_
  refine .perform_bind hl.stable (fun _ => Inside setup thread l [] free) ?_
    fun removed => ?_
  · intro w choice result w' hinv _ hexec h
    refine inside_of_removed hl hinv h hid hexec (world_held hexec) ?_
    rcases world_books hexec with ⟨_, _, hbooks, _⟩ | ⟨_, _, _, _, hbooks⟩
    · exact .inl hbooks
    · exact .inr hbooks
  · cases removed with
    | error e => exact .skip
    | ok _ => exact .bind _ (adjustQuota_safely hl _) fun _ => .skip

theorem releaseEach_safely (hl : l.Critical) {referenced order : List Bytes}
    (hfree : ∀ id ∈ order, id ∉ referenced → id ∈ free) :
    Safely setup thread (Inside setup thread l [] free) (releaseEach referenced refs order)
      fun _ => Inside setup thread l [] free := by
  induction order with
  | nil => exact .skip
  | cons id rest ih =>
    refine .bind (fun _ => Inside setup thread l [] free) ?_ fun _ =>
      ih fun id hid => hfree id (List.mem_cons_of_mem _ hid)
    unfold releaseUnreferenced
    split_ifs with hin
    · exact .skip
    · exact releaseOne_safely hl (hfree id List.mem_cons_self hin) _

-- The scan finds out which files no row holds.
theorem guards_scan {α : Type} (hl : l.Critical) {candidates : List Bytes}
    {rest : Except StorageError (List Bytes) → Prog α} {post : α → World sig State → Prop}
    (herror : ∀ e, Safely setup thread (Inside setup thread l [] []) (rest (.error e)) post)
    (hok : ∀ referenced, Safely setup thread
      (Inside setup thread l [] (candidates.filter (· ∉ referenced))) (rest (.ok referenced)) post) :
    Safely setup thread (Inside setup thread l ids free)
      (invoke (.blobReferenced candidates) >>= rest) post := by
  refine .perform_bind hl.stable (fun result w => match result with
    | .error _ => Inside setup thread l [] [] w
    | .ok referenced => Inside setup thread l [] (candidates.filter (· ∉ referenced)) w)
    ?_ fun result => ?_
  · intro w choice result w' hinv hexclusive hexec h
    obtain ⟨hinv', hguar, hrely⟩ :=
      harmless_step (c := .blobReferenced candidates) trivial hinv hexclusive hexec
    have h' := hl.stable w w' hrely h
    refine ⟨hinv', hguar, ?_⟩
    rcases result with e | referenced
    · exact h'.forget
    obtain ⟨hbooks, hscan⟩ := world_books hexec
    refine ⟨h'.held, by simp, fun id hid => ?_⟩
    rw [hbooks]
    simp only [List.mem_filter, decide_eq_true_eq] at hid
    exact hscan referenced rfl id hid.1 hid.2
  · cases result with
    | error e => exact herror e
    | ok referenced => exact hok referenced

theorem releaseBlobsLocked_safely (hl : l.Critical) :
    Safely setup thread (Inside setup thread l ids free) (releaseBlobsLocked refs)
      fun _ => Inside setup thread l [] [] := by
  unfold releaseBlobsLocked
  split_ifs
  · exact .done fun _ h => h.forget
  refine guards_scan hl (fun e => .skip) fun referenced => ?_
  refine .perform_bind hl.stable (fun order w => order.Perm (distinctIDs refs) ∧
    Inside setup thread l [] ((distinctIDs refs).filter (· ∉ referenced)) w) ?_ fun order => ?_
  · intro w choice order w' hinv hok hexec h
    obtain ⟨hinv', hguar, hrely⟩ :=
      harmless_step (c := .mapOrder (distinctIDs refs)) trivial hinv hok hexec
    exact ⟨hinv', hguar, (world_books hexec).2, hl.stable w w' hrely h⟩
  · intro w hw
    refine (releaseEach_safely hl fun id hid hout => ?_).weaken (fun _ _ h => h.forget) w hw.2
    exact List.mem_filter.mpr ⟨hw.1.subset hid, by simpa using hout⟩

theorem releaseBlobs_safely (refs : List BlobRef) : Outside setup thread (releaseBlobs refs) := by
  unfold releaseBlobs
  split_ifs
  · exact .skip
  · refine guards_lock (.inl rfl) fun _ => ?_
    refine .bind _ (releaseBlobsLocked_safely (.inl rfl)) fun _ => ?_
    exact guards_unlock (.inl rfl) fun _ => .skip

end Files

section Sessions

-- A new row holds a file that is there. When it is not written, what no row
-- held is still held by none.
theorem storeRow_safely {α : Type} (hl : l.Critical) {mailbox : Bytes} {uid : UInt32}
    {metadata : MessageMetadata} (hid : metadata.messageID ∈ ids)
    {rest : Except StorageError Unit → Prog α} {post : α → World sig State → Prop}
    (herror : ∀ e, Safely setup thread (Inside setup thread l ids free) (rest (.error e)) post)
    (hok : Safely setup thread (Inside setup thread l ids []) (rest (.ok ())) post) :
    Safely setup thread (Inside setup thread l ids free)
      (invoke (.storeMessageMetadata mailbox uid metadata) >>= rest) post := by
  refine .perform_bind hl.stable (fun result w => match result with
    | .error _ => Inside setup thread l ids free w
    | .ok _ => Inside setup thread l ids [] w) ?_ fun result => ?_
  · intro w choice result w' hinv _ hexec h
    have hheld : w'.state.held = w.state.held := world_held hexec
    rcases world_books hexec with ⟨e, rfl, hbooks⟩ | ⟨rfl, row, hstored, hbooks⟩
    · have hpresent : BlobsPresent (books setup w'.state) := hbooks ▸ hinv.1
      obtain ⟨hinv', hguar⟩ := owner_step hinv hexec hl h hheld hpresent
      exact ⟨hinv', hguar, by rw [hheld]; exact h.held, hbooks ▸ h.there, hbooks ▸ h.free⟩
    have hpresent : BlobsPresent (books setup w'.state) := by
      intro id hr
      rw [hbooks] at hr ⊢
      rcases hr.of_setRow with hold | ⟨_, hnew, rfl⟩
      · exact hinv.1 id hold
      · cases hnew
        rw [hstored.messageID]
        exact h.there _ hid
    obtain ⟨hinv', hguar⟩ := owner_step hinv hexec hl h hheld hpresent
    refine ⟨hinv', hguar, by rw [hheld]; exact h.held, fun id hid => ?_, by simp⟩
    rw [hbooks]
    exact h.there id hid
  · cases result with
    | error e => exact herror e
    | ok _ => exact hok

variable (mailbox : Bytes)

theorem appendLocked_safely (flags : List Bytes) (date : Int) (data : Bytes) :
    Safely setup thread (Inside setup thread .guard [] [])
      (appendLocked setup mailbox flags date data) fun _ => Inside setup thread .guard [] [] := by
  have hl : Lock.guard.Critical := .inl rfl
  refine .bind _ (storeBlob_safely hl) fun stored => ?_
  rcases stored with e | messageID
  · exact .skip
  refine .entails (Inside setup thread .guard [messageID] []) (fun _ h => h.2) ?_
  refine guards_harmless hl.stable trivial fun uid => ?_
  rcases uid with e | uid
  · exact .bind _ (releaseBlobsLocked_safely hl) fun _ => .skip
  refine .bind _ (guards_of_calls hl.stable
    (threadOf_calls harmless_of_reads _)) fun thread => ?_
  refine storeRow_safely hl ?_ (fun e => ?_) ?_
  · exact List.mem_cons_self
  · exact .bind _ (releaseBlobsLocked_safely hl) fun _ => .skip
  · exact .done fun _ h => h.forget

theorem appendMessageUID_safely (flags : List Bytes) (date : Int) (data : Bytes) :
    Outside setup thread (appendMessageUID setup mailbox flags date data) := by
  have hfinish : ∀ uid, Outside setup thread (appendMessageUID.finish mailbox uid) :=
    fun uid => outside_calls (finish_calls harmless_of_reads mailbox uid)
  refine guards_lock (.inl rfl) fun _ => .bind _ (appendLocked_safely mailbox flags date data)
    fun appended => guards_unlock (.inl rfl) fun _ => ?_
  rcases appended with e | uid
  · exact .skip
  refine guards_harmless outside_stable trivial fun uids => ?_
  rcases uids with e | uids
  · exact hfinish uid
  dsimp only
  split_ifs
  · exact .skip
  · exact hfinish uid

theorem copyOne_safely {source dest : Bytes} (uid : UInt32) :
    Outside setup thread (copyOne setup source dest uid) := by
  have hl : Lock.guard.Critical := .inl rfl
  refine guards_lock hl fun _ => .bind (fun _ => Inside setup thread .guard [] []) ?_
    fun copied => guards_unlock hl fun _ => .skip
  refine guards_harmless hl.stable trivial fun metadata => ?_
  rcases metadata with e | metadata
  · exact .skip
  refine guards_harmless hl.stable trivial fun data => ?_
  rcases data with e | data
  · exact .skip
  refine guards_harmless hl.stable trivial fun newUID => ?_
  rcases newUID with e | newUID
  · exact .skip
  refine .bind _ (storeBlob_safely hl) fun stored => ?_
  rcases stored with e | newID
  · exact .skip
  refine .entails (Inside setup thread .guard [newID] []) (fun _ h => h.2) ?_
  refine storeRow_safely hl ?_ (fun e => ?_) ?_
  · exact List.mem_cons_self
  · exact .bind _ (releaseBlobsLocked_safely hl) fun _ => .skip
  · exact .done fun _ h => h.forget

theorem outside_expunges : Expunges Harmless fun _ program => Outside setup thread program where
  reads := harmless_of_reads
  looking := outside_calls
  bind hp hr := .bind _ hp hr
  lock := trivial
  unlock := trivial
  delete _ _ := trivial
  release := releaseBlobs_safely

theorem deleteMailbox_safely : Outside setup thread (deleteMailbox mailbox) := by
  refine .bind _ (outside_calls (mailboxRefs_calls harmless_of_reads mailbox)) fun refs => ?_
  refine guards_harmless outside_stable trivial fun deleted => ?_
  cases deleted with
  | error e => exact .skip
  | ok _ => exact .bind _ (releaseBlobs_safely refs) fun _ => .skip

theorem rollbackAppended_safely (uids : List UInt32) :
    Outside setup thread (rollbackAppended mailbox uids) := by
  refine .bind _
    (outside_calls (rollbackEach_calls harmless_of_reads (fun _ _ => trivial) _ _)) fun refs => ?_
  exact releaseBlobs_safely refs

end Sessions

section Deliveries

def unheld (setup : Setup) (known : Bool) (data : Bytes) : List Bytes :=
  if known then [] else [setup.hash data]

variable {messageID : Bytes} {reserved : Int}

-- Whatever was charged was charged for a file that no row holds.
theorem metaFail_safely (hfree : 0 < reserved → messageID ∈ free) :
    Safely setup thread (Inside setup thread .delivery ids free) (metaFail messageID reserved)
      fun _ => Inside setup thread .delivery [] [] := by
  have hl : Lock.delivery.Critical := .inr rfl
  unfold metaFail
  split_ifs with hpos
  · refine .perform_bind hl.stable (fun _ => Inside setup thread .delivery [] free) ?_
      fun removed => ?_
    · intro w choice result w' hinv _ hexec h
      refine inside_of_removed hl hinv h (hfree hpos) hexec (world_held hexec) ?_
      rcases world_books hexec with ⟨_, _, hbooks, _⟩ | ⟨_, _, _, _, hbooks⟩
      · exact .inl hbooks
      · exact .inr hbooks
    · exact guards_harmless hl.stable trivial fun _ => .done fun _ h => h.forget
  · exact .done fun _ h => h.forget

theorem deliverRow_safely (hfree : 0 < reserved → messageID ∈ free) (folder : Bytes)
    (flags : List Bytes) (data : Bytes) :
    Safely setup thread (Inside setup thread .delivery [messageID] free)
      (deliverRow setup folder flags data messageID reserved)
      fun _ => Inside setup thread .delivery [] [] := by
  have hl : Lock.delivery.Critical := .inr rfl
  refine .bind _ (guards_of_calls hl.stable
    (ensureFolder_calls (fun _ => trivial))) fun _ => ?_
  refine guards_harmless hl.stable trivial fun uid => ?_
  rcases uid with e | uid
  · exact .bind _ (metaFail_safely hfree) fun _ => .skip
  refine guards_harmless hl.stable trivial fun threadID =>
    guards_harmless hl.stable trivial fun date => ?_
  refine storeRow_safely hl ?_ (fun e => ?_) ?_
  · exact List.mem_cons_self
  · exact .bind _ (metaFail_safely hfree) fun _ => .skip
  · exact .done fun _ h => h.forget

theorem deliverLocalHop_safely (folder : Bytes) (flags : List Bytes) (data : Bytes) :
    Outside setup thread (deliverLocalHop setup folder flags data) := by
  have hl : Lock.delivery.Critical := .inr rfl
  refine guards_lock hl fun _ => .bind (fun _ => Inside setup thread .delivery [] []) ?_
    fun _ => guards_unlock hl fun _ => .skip
  refine guards_harmless hl.stable trivial fun active => ?_
  split_ifs
  · refine .perform_bind hl.stable
      (fun known => Inside setup thread .delivery [] (unheld setup known data)) ?_ fun known => ?_
    · intro w choice known w' hinv hok hexec h
      obtain ⟨hinv', hguar, hrely⟩ :=
        harmless_step (c := .messageExists (setup.hash data)) trivial hinv hok hexec
      refine ⟨hinv', hguar, (hl.stable w w' hrely h).held, by simp, fun id hid hr => ?_⟩
      -- A file that is not there is held by no row.
      obtain ⟨hbooks, _, hexact⟩ := world_books hexec
      rw [hbooks] at hr
      have hknown := hexact (hok h.held) (setup.hash_valid data)
      have hpresent := hinv.1 id hr
      cases known with
      | true => cases hid
      | false =>
        rw [List.mem_singleton.mp hid, ← hknown] at hpresent
        cases hpresent
    refine .bind _ (guards_of_calls hl.stable
      (reserveDelivery_calls (fun _ => trivial) _)) fun reserved => ?_
    rcases reserved with e | _
    · exact .done fun _ h => h.forget
    refine .bind _ (storeMessage_safely hl) fun stored => ?_
    cases stored with
    | error e =>
      exact .bind _ (guards_of_calls hl.stable
        (releaseDelivery_calls (fun _ => trivial) _)) fun _ => .done fun _ h => h.forget
    | ok messageID =>
      rintro w ⟨rfl, h⟩
      refine deliverRow_safely (fun hpos => ?_) folder flags data w h
      cases known with
      | true => exact absurd hpos (by simp)
      | false => exact List.mem_cons_self
  · exact .skip

theorem removeOrphans_safely {referenced candidates : List Bytes}
    (hfree : ∀ id ∈ candidates, id ∉ referenced → id ∈ free) :
    Safely setup thread (Inside setup thread .guard [] free) (removeOrphans referenced candidates)
      fun _ => Inside setup thread .guard [] free := by
  have hl : Lock.guard.Critical := .inl rfl
  induction candidates with
  | nil => exact .skip
  | cons id rest ih =>
    have hrest := ih fun id hid => hfree id (List.mem_cons_of_mem _ hid)
    unfold removeOrphans
    split_ifs with hin
    · exact hrest
    refine .perform_bind hl.stable (fun _ => Inside setup thread .guard [] free) ?_
      fun removed => ?_
    · intro w choice result w' hinv _ hexec h
      exact inside_of_removed hl hinv h (hfree id List.mem_cons_self hin) hexec
        (world_held hexec) (world_books hexec)
    · split
      · exact hrest
      · exact hrest
      · exact .skip

theorem gcOrphanBlobs_safely : Outside setup thread gcOrphanBlobs := by
  have hl : Lock.guard.Critical := .inl rfl
  refine guards_lock hl fun _ => guards_harmless hl.stable trivial fun _ => ?_
  refine .bind (fun _ => Inside setup thread .guard [] []) ?_ fun _ =>
    guards_harmless hl.stable trivial fun _ => ?_
  · unfold sweepOrphans
    refine guards_harmless hl.stable trivial fun candidates => ?_
    rcases candidates with e | candidates
    · exact .skip
    dsimp only
    split_ifs
    · exact .skip
    · refine guards_scan hl (fun e => .skip) fun referenced => ?_
      refine (removeOrphans_safely fun id hid hout => ?_).weaken fun _ _ h => h.forget
      exact List.mem_filter.mpr ⟨hid, by simpa using hout⟩
  · change Safely setup thread _ (invoke (.unlock .guard) >>= fun result => pure result) _
    exact guards_unlock hl fun _ => .skip

end Deliveries

inductive Task
  | operation (op : Operation)
  | collect

def Task.program (setup : Setup) : Task → Prog Unit
  | .operation op => op.program setup
  | .collect => gcOrphanBlobs

def Task.session (setup : Setup) : List Task → Prog Unit
  | [] => pure ()
  | task :: rest => do
    task.program setup
    session setup rest

def taskPool (setup : Setup) (state : State) (sessions : List (List Task)) :
    Config sig State Unit :=
  ⟨⟨state, []⟩, sessions.map (Task.session setup)⟩

def between (thread : Nat) : List (Event sig) → Bool
  | [] => false
  | ⟨actor, call, result⟩ :: rest =>
    if actor = thread then
      match call, result with
      | .storeMessage _, .ok _ | .storeMessageWithQuota _ _, .ok _ => true
      | .storeMessageMetadata _ _ _, _ | .unlock .guard, _ | .unlock .delivery, _ => false
      | _, _ => between thread rest
    else between thread rest

def BlobSafe (setup : Setup) (state : State) (sessions : List (List Task)) : Prop :=
  ∀ cfg, Run (machine setup) (fun _ _ _ _ => True) (taskPool setup state sessions) cfg →
    (∀ thread < sessions.length, between thread cfg.world.log = false) →
    BlobsPresent (books setup cfg.world.state)

def dedupeSessions : List (List Task) :=
  [[.operation (.append inboxName [deletedFlag] 0 (bytes "0")),
      .operation (.expungeReport inboxName)],
    [.operation (.deliver inboxName [] (bytes "0"))]]

def dedupeSchedule : List (Nat × Choice) :=
  List.replicate 17 (0, demoChoice) ++ List.replicate 9 (1, demoChoice) ++
    (0, { demoChoice with order := [demoSetup.hash (bytes "0")] }) ::
      List.replicate 4 (0, demoChoice)

-- The delivery finds the file, and the expunge, which had already looked for
-- references, removes it.
theorem blobSafe_fails_dedupe : ¬ BlobSafe demoSetup emptyState dedupeSessions := by
  intro h
  have hrun : ((taskPool demoSetup emptyState dedupeSessions).replay (machine demoSetup)
      (fun _ _ _ _ => True) dedupeSchedule).any (fun cfg =>
        (∀ thread < dedupeSessions.length, between thread cfg.world.log = false) ∧
        (cfg.world.state.db.row demoSetup.user inboxName 2).any (fun row =>
          row.messageID = demoSetup.hash (bytes "0")) ∧
        cfg.world.state.blobs[demoSetup.hash (bytes "0")]? = none) = true := by
    decide
  obtain ⟨cfg, hcfg, hlost⟩ := (Option.any_eq_true _ _).mp hrun
  simp only [decide_eq_true_eq] at hlost
  obtain ⟨hquiet, hheld, hgone⟩ := hlost
  obtain ⟨row, hrow, hid⟩ := (Option.any_eq_true _ _).mp hheld
  have hpresent := h cfg (.of_replay hcfg) hquiet _
    ⟨inboxName, 2, row, hrow, by simpa using hid⟩
  rw [show (books demoSetup cfg.world.state).blobs = cfg.world.state.blobs from rfl, hgone]
    at hpresent
  cases hpresent

theorem Task.session_safely (tasks : List Task) : Outside setup thread (session setup tasks) := by
  induction tasks with
  | nil => exact .skip
  | cons task rest ih =>
    refine .bind (fun _ _ => True) ?_ fun _ => ih
    cases task with
    | collect => exact gcOrphanBlobs_safely
    | operation op =>
      cases op with
      | append mailbox flags date data =>
        exact .bind _ (appendMessageUID_safely mailbox flags date data) fun _ =>
          .skip
      | copy source dest seqSet =>
        exact .bind _ (outside_expunges.copyMessagesUIDs copyOne_safely seqSet) fun _ =>
          .skip
      | move source dest seqSet =>
        exact .bind _ (outside_expunges.moveLive (fun _ _ _ => trivial) copyOne_safely
          seqSet) fun _ => .skip
      | expungeReport mailbox =>
        exact .bind _ (outside_expunges.expungeReport mailbox) fun _ => .skip
      | expungeUIDs mailbox uids => exact outside_expunges.expungeUIDs mailbox uids
      | deleteMailbox mailbox =>
        exact .bind _ (deleteMailbox_safely mailbox) fun _ => .skip
      | rollbackAppended mailbox uids => exact rollbackAppended_safely mailbox uids
      | deliver folder flags data =>
        exact .bind _ (deliverLocalHop_safely folder flags data) fun _ => .skip

-- In every interleaving that keeps the two locks apart, every row has its file
-- at every moment.
theorem blobsPresent_of_exclusive (setup : Setup) (state : State) (sessions : List (List Task))
    (cfg : Config sig State Unit)
    (hrun : Run (machine setup) (Exclusive setup) (taskPool setup state sessions) cfg)
    (hstart : BlobsPresent (books setup state))
    (hfree : state.held .guard = none ∨ state.held .delivery = none) :
    BlobsPresent (books setup cfg.world.state) := by
  refine ((blobDiscipline setup).run_inv hrun ⟨hstart, hfree⟩ fun i program hi => ?_).1
  obtain ⟨tasks, _, rfl⟩ := List.mem_map.mp (List.mem_of_getElem? hi)
  exact Task.session_safely tasks _ trivial

def apartSessions : List (List Task) := dedupeSessions ++ [[.collect]]

def apartSchedule : List (Nat × Choice) :=
  List.replicate 17 (0, demoChoice) ++
    (0, { demoChoice with order := [demoSetup.hash (bytes "0")] }) ::
      List.replicate 4 (0, demoChoice) ++ List.replicate 10 (1, demoChoice) ++
      List.replicate 5 (2, demoChoice)

theorem blobsPresent_expunge_deliver : ∃ cfg,
    Run (machine demoSetup) (Exclusive demoSetup)
      (taskPool demoSetup emptyState apartSessions) cfg ∧
    (cfg.world.state.db.row demoSetup.user inboxName 2).isSome ∧
    BlobsPresent (books demoSetup cfg.world.state) := by
  have hrun : ((taskPool demoSetup emptyState apartSessions).replay (machine demoSetup)
      (Exclusive demoSetup) apartSchedule).any (fun cfg =>
        (cfg.world.state.db.row demoSetup.user inboxName 2).isSome) = true := by
    decide
  obtain ⟨cfg, hcfg, hrow⟩ := (Option.any_eq_true _ _).mp hrun
  refine ⟨cfg, .of_replay hcfg, hrow, ?_⟩
  refine blobsPresent_of_exclusive demoSetup emptyState apartSessions cfg (.of_replay hcfg) ?_
    (.inl rfl)
  rintro id ⟨mailbox, uid, row, hrow, _⟩
  simp [books, emptyState, Database.empty, Database.row, Database.messagesOf] at hrow

variable {w w' : World sig State} {c : Call} {choice : Choice} {result : c.Result}

def StoredIn (log : List (Event sig)) (data : Bytes) : Prop := ∃ event ∈ log,
  event.call = .storeMessage data ∨ ∃ limit, event.call = .storeMessageWithQuota data limit

def Intact (setup : Setup) (w : World sig State) : Prop :=
  Addressed setup.hash (StoredIn w.log) w.state.blobs

theorem Intact.exec (hw : Intact setup w) (h : w.exec (machine setup) thread c choice = some (result, w')) :
    Intact setup w' := by
  obtain ⟨hstate, hlog⟩ := World.exec_eq_some.mp h
  have hold : Addressed setup.hash (StoredIn w'.log) w.state.blobs := by
    intro id blob hblob
    obtain ⟨hid, event, hevent, hstored⟩ := hw id blob hblob
    exact ⟨hid, event, hlog ▸ List.mem_cons_of_mem _ hevent, hstored⟩
  have hnew : ⟨thread, c, result⟩ ∈ w'.log := hlog ▸ List.mem_cons_self
  have hstep := world_books h
  cases c
  case storeMessage data =>
    simp only [machine, exec] at hstate
    rw [Intact, (blobCall_eq_some hstate).2.2]
    exact hold.stores ⟨_, hnew, .inl rfl⟩ (stores_storeMessage ..)
  case storeMessageWithQuota data limit =>
    simp only [machine, exec] at hstate
    rw [Intact, (blobCall_eq_some hstate).2.2]
    exact hold.stores ⟨_, hnew, .inr ⟨limit, rfl⟩⟩ (stores_storeMessageWithQuota ..)
  -- No other call makes a file.
  all_goals
    intro id blob (hblob : (books setup w'.state).blobs[id]? = some blob)
    have hbefore : (books setup w.state).blobs[id]? = some blob := by
      simp only [BooksStep, Transacted] at hstep
      grind [Books.setRow, Books.dropMailbox, Books.removeBlob]
    exact hold id blob hbefore

-- In every interleaving, whatever fails, a read gives what a session has stored.
theorem readMessage_of_run {state : State} {sessions : List (List Task)} {cfg : Config sig State Unit}
    (hempty : state.blobs = ∅)
    (hrun : Run (machine setup) (fun _ _ _ _ => True) (taskPool setup state sessions) cfg)
    {env : DiskEnv} {id data : Bytes} (hread : cfg.world.state.blobs.readMessage env id = .ok data) :
    setup.hash data = id ∧ StoredIn cfg.world.log data := by
  have hintact : Intact setup cfg.world := by
    refine hrun.invariant (Intact setup) (fun _ _ _ _ _ _ _ _ hexec hw => hw.exec hexec)
      (fun program _ => program.calls_true) ?_
    simp [Intact, taskPool, hempty, addressed_empty]
  obtain ⟨blob, hblob, rfl⟩ : ∃ blob, cfg.world.state.blobs[id]? = some blob ∧ blob.data = data := by
    grind [Blobs.readMessage]
  exact hintact id blob hblob

theorem readMessage_of_append : ∃ cfg,
    Run (machine demoSetup) (fun _ _ _ _ => True) (taskPool demoSetup emptyState dedupeSessions) cfg ∧
    cfg.world.state.blobs.readMessage demoChoice.disk (demoSetup.hash (bytes "0")) = .ok (bytes "0") ∧
    StoredIn cfg.world.log (bytes "0") := by
  have hrun : ((taskPool demoSetup emptyState dedupeSessions).replay (machine demoSetup)
      (fun _ _ _ _ => True) (List.replicate 9 (0, demoChoice))).any (fun cfg =>
        cfg.world.state.blobs.readMessage demoChoice.disk (demoSetup.hash (bytes "0")) =
          .ok (bytes "0")) = true := by
    decide
  obtain ⟨cfg, hcfg, hread⟩ := (Option.any_eq_true _ _).mp hrun
  have hread := of_decide_eq_true hread
  exact ⟨cfg, .of_replay hcfg, hread, (readMessage_of_run rfl (.of_replay hcfg) hread).2⟩

end UMail.Mailstore
