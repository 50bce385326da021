import UMail.Concurrency.Sequential
import UMail.Mailstore.Books
import UMail.Mailstore.Operations.Calls

namespace UMail.Mailstore

open Concurrency UMail.Storage UMail.Db UMail.Imap

def blobOf (metadata : MessageMetadata) : BlobRef := ⟨metadata.messageID, metadata.size⟩

def Backed (blobs : Blobs) (ref : BlobRef) : Prop :=
  ∃ blob, blobs[ref.id]? = some blob ∧ blob.size = ref.size

def Sized (blobs : Blobs) (ref : BlobRef) : Prop :=
  isValidMessageID ref.id = true → ∀ blob, blobs[ref.id]? = some blob → blob.size = ref.size

def RowsBacked (blobs : Blobs) (rows : Rows) : Prop :=
  ∀ mailbox uid row, rows mailbox uid = some row → Backed blobs (blobOf row)

section Backed

variable {blobs : Blobs} {ref : BlobRef} {id : Bytes} {blob : Blob} {rows : Rows}

theorem Backed.sized (h : Backed blobs ref) : Sized blobs ref := by
  obtain ⟨blob, hblob, hsize⟩ := h
  intro _ other hother
  rw [hblob] at hother
  cases hother
  exact hsize

-- Storing a file of the same length over another disturbs no reference.
theorem Backed.insert (h : Backed blobs ref)
    (hsame : ∀ old, blobs[id]? = some old → old.size = blob.size) :
    Backed (blobs.insert id blob) ref := by
  obtain ⟨old, hold, hsize⟩ := h
  by_cases hid : id = ref.id
  · subst hid
    exact ⟨blob, by simp, by rw [← hsize, hsame old hold]⟩
  · exact ⟨old, by rw [← hold]; simp [Std.ExtTreeMap.getElem?_insert, hid], hsize⟩

theorem Backed.erase (h : Backed blobs ref) (hid : ref.id ≠ id) :
    Backed (blobs.erase id) ref := by
  obtain ⟨old, hold, hsize⟩ := h
  exact ⟨old, by rw [← hold]; simp [Std.ExtTreeMap.getElem?_erase, Ne.symm hid], hsize⟩

theorem Sized.erase (h : Sized blobs ref) (id : Bytes) : Sized (blobs.erase id) ref := by
  intro hvalid blob hblob
  rw [Std.ExtTreeMap.getElem?_erase] at hblob
  split_ifs at hblob
  exact h hvalid blob hblob

theorem RowsBacked.not_referenced (h : RowsBacked blobs rows) (hnone : blobs[id]? = none) :
    ¬ Referenced rows id := by
  rintro ⟨mailbox, uid, row, hrow, rfl⟩
  obtain ⟨blob, hblob, _⟩ := h mailbox uid row hrow
  rw [show (blobOf row).id = row.messageID from rfl, hnone] at hblob
  cases hblob

theorem RowsBacked.erase (h : RowsBacked blobs rows) (hfree : ¬ Referenced rows id) :
    RowsBacked (blobs.erase id) rows := fun mailbox uid row hrow =>
  (h mailbox uid row hrow).erase fun he => hfree ⟨mailbox, uid, row, hrow, he⟩

theorem RowsBacked.insert (h : RowsBacked blobs rows)
    (hsame : ∀ old, blobs[id]? = some old → old.size = blob.size) :
    RowsBacked (blobs.insert id blob) rows := fun mailbox uid row hrow =>
  (h mailbox uid row hrow).insert hsame

theorem RowsBacked.mono {rows' : Rows} (h : RowsBacked blobs rows)
    (hsub : ∀ mailbox uid row, rows' mailbox uid = some row → rows mailbox uid = some row) :
    RowsBacked blobs rows' := fun mailbox uid row hrow =>
  h mailbox uid row (hsub mailbox uid row hrow)

theorem RowsBacked.setRow {b : Books} (h : RowsBacked b.blobs b.row) {mailbox : Bytes}
    {uid : UInt32} {row : MessageMetadata} (hrow : Backed b.blobs (blobOf row)) :
    RowsBacked b.blobs (b.setRow mailbox uid (some row)).row := by
  intro box u row' hrow'
  rw [Books.setRow_row] at hrow'
  split_ifs at hrow'
  · cases hrow'
    exact hrow
  · exact h box u row' hrow'

end Backed

-- Whether the last call was a failed attempt to get a UID or to write a row.
def afterFailedRow (log : List (Event sig)) : Bool :=
  match log with
  | ⟨_, .getNextUID _, .error _⟩ :: _ => true
  | ⟨_, .storeMessageMetadata _ _ _, .error _⟩ :: _ => true
  | _ => false

-- Nothing that gives quota back fails: no release, no look at a file, and no
-- removal of the file of a delivery that got no row. And no message is stored
-- where a file of another length has its hash.
def Settled (setup : Setup) (w : World sig State) (_ : Nat) (c : Call) (choice : Choice) : Prop :=
  match c with
  | .incrementQuota delta => delta < 0 → choice.fault = false
  | .messageExists _ => choice.fault = false
  | .deleteMessageUnchecked _ => afterFailedRow w.log = true → choice.fault = false
  | .storeMessage data | .storeMessageWithQuota data _ =>
    (w.state.blobs[setup.hash data]?).all (fun blob => blob.data.length = data.length) = true
  | _ => True

instance (setup : Setup) (w : World sig State) (thread : Nat) (c : Call) (choice : Choice) :
    Decidable (Settled setup w thread c choice) := by
  apply @Call.casesOn (fun c => Decidable (Settled setup w thread c choice)) c
  case incrementQuota => exact fun delta => inferInstanceAs (Decidable (delta < 0 → choice.fault = false))
  case messageExists => exact fun _ => inferInstanceAs (Decidable (choice.fault = false))
  case deleteMessageUnchecked =>
    exact fun _ => inferInstanceAs (Decidable (afterFailedRow w.log = true → choice.fault = false))
  case storeMessage => exact fun _ => inferInstanceAs (Decidable (_ = true))
  case storeMessageWithQuota => exact fun _ _ => inferInstanceAs (Decidable (_ = true))
  all_goals
    intros
    exact isTrue trivial

-- What a program does to the books when it runs alone and settled.
def Spec {α : Type} (setup : Setup) (pre : Books → Prop) (program : Prog α)
    (post : α → Books → Prop) : Prop :=
  Triple (machine setup) (Settled setup) (fun w => pre (books setup w.state)) program
    fun value w => post value (books setup w.state)

namespace Spec

variable {setup : Setup} {α β : Type} {pre : Books → Prop} {post : α → Books → Prop}

theorem done {value : α} (h : ∀ b, pre b → post value b) : Spec setup pre (pure value) post :=
  Triple.done fun w => h (books setup w.state)

theorem skip {value : α} : Spec setup pre (pure value) fun _ => pre := done fun _ h => h

theorem bind {program : Prog β} {rest : β → Prog α} (middle : β → Books → Prop)
    (hprogram : Spec setup pre program middle)
    (hrest : ∀ value, Spec setup (middle value) (rest value) post) :
    Spec setup pre (program >>= rest) post :=
  Triple.bind (fun value w => middle value (books setup w.state)) hprogram hrest

variable {program : Prog α} {c : Call} {rest : c.Result → Prog α}

theorem weaken {pre' : Books → Prop} {post' : α → Books → Prop} (h : Spec setup pre program post)
    (hpre : ∀ b, pre' b → pre b) (hpost : ∀ value b, post value b → post' value b) :
    Spec setup pre' program post' :=
  Triple.weaken h (fun w => hpre (books setup w.state)) fun value _ => hpost value _

theorem entails (pre' : Books → Prop) (hpre : ∀ b, pre b → pre' b) (h : Spec setup pre' program post) :
    Spec setup pre program post :=
  Triple.entails (fun w => pre' (books setup w.state)) (fun w => hpre (books setup w.state)) h

theorem assuming (fact : Prop) (hfact : ∀ b, pre b → fact) (h : fact → Spec setup pre program post) :
    Spec setup pre program post :=
  fun thread w value w' hexec hpre => h (hfact _ hpre) thread w value w' hexec hpre

theorem call (middle : c.Result → Books → Prop)
    (hcall : ∀ w thread choice result b', Settled setup w thread c choice →
      BooksStep setup choice c result (books setup w.state) b' → pre (books setup w.state) →
      middle result b') (hrest : ∀ result, Spec setup (middle result) (rest result) post) :
    Spec setup pre (invoke c >>= rest) post :=
  Triple.perform_bind (S := sig) (fun result w => middle result (books setup w.state))
    (fun w thread choice result _ hok hexec =>
      hcall w thread choice result _ hok (world_books hexec)) hrest

theorem read (fact : c.Result → Books → Prop)
    (hc : ∀ w thread choice result b b', Settled setup w thread c choice →
      BooksStep setup choice c result b b' → b' = b ∧ fact result b)
    (hrest : ∀ result, Spec setup (fun b => pre b ∧ fact result b) (rest result) post) :
    Spec setup pre (invoke c >>= rest) post := by
  refine call (fun result b => pre b ∧ fact result b) ?_ hrest
  intro w thread choice result b' hok hstep hpre
  obtain ⟨rfl, hfact⟩ := hc w thread choice result _ b' hok hstep
  exact ⟨hpre, hfact⟩

theorem quiet (hc : ∀ choice result b b', BooksStep setup choice c result b b' → b' = b)
    (hrest : ∀ result, Spec setup pre (rest result) post) :
    Spec setup pre (invoke c >>= rest) post := by
  refine call (fun _ => pre) ?_ hrest
  intro w thread choice result b' _ hstep hpre
  rw [hc choice result _ b' hstep]
  exact hpre

theorem looking (h : program.Calls Call.Reads) : Spec setup pre program fun _ => pre := by
  induction program with
  | done value => exact skip
  | call c next ih =>
    refine quiet (c := c) (fun choice result b b' hstep => ?_) fun result => ih result (h.2 result)
    have hc : c.Reads := h.1
    cases c
    case messageExists | readMessage | blobReferenced | mapOrder | getMessageUIDs
        | getMessageMetadata => exact hstep.1
    case getAccount | quotaLimit | orphanCandidates | listedMailbox | getMailbox
        | getOrCreateThreadID | getThreadMessages | now => exact hstep
    all_goals exact False.elim hc

theorem perform {post : c.Result → Books → Prop}
    (hcall : ∀ w thread choice result b', Settled setup w thread c choice →
      BooksStep setup choice c result (books setup w.state) b' → pre (books setup w.state) →
      post result b') : Spec setup pre (invoke c) post := by
  exact call post hcall fun _ => done fun _ h => h

end Spec

structure Ledger (owed : Int) (frame : Blobs → Rows → Prop) (b : Books) : Prop where
  used : b.account.quotaUsed = b.blobs.usage + owed
  frame : frame b.blobs b.row

theorem Ledger.mono {owed : Int} {frame frame' : Blobs → Rows → Prop} {b : Books}
    (h : Ledger owed frame b) (hframe : ∀ blobs rows, frame blobs rows → frame' blobs rows) :
    Ledger owed frame' b := ⟨h.used, hframe _ _ h.frame⟩

-- While blobs are stored the listed ones are there, and while they are
-- released the lengths of the listed ones are known.
def Holding (refs : List BlobRef) (frame : Rows → Prop) (blobs : Blobs) (rows : Rows) : Prop :=
  RowsBacked blobs rows ∧ (∀ ref ∈ refs, Backed blobs ref) ∧ frame rows

def Releasing (refs : List BlobRef) (frame : Rows → Prop) (blobs : Blobs) (rows : Rows) : Prop :=
  RowsBacked blobs rows ∧ (∀ ref ∈ refs, Sized blobs ref) ∧ frame rows

theorem Holding.releasing {refs : List BlobRef} {frame : Rows → Prop} {blobs : Blobs} {rows : Rows}
    (h : Holding refs frame blobs rows) : Releasing refs frame blobs rows :=
  ⟨h.1, fun ref href => (h.2.1 ref href).sized, h.2.2⟩

section Charge

variable {setup : Setup} {frame : Blobs → Rows → Prop} {owed delta : Int}

def Adjusted (owed delta : Int) (frame : Blobs → Rows → Prop) (result : Except AccountError Unit)
    (b : Books) : Prop :=
  match result with
  | .ok _ => Ledger (owed + delta) frame b
  | .error _ => 0 ≤ delta ∧ Ledger owed frame b

theorem incrementQuota_spec (howed : 0 ≤ owed) (hdelta : 0 ≤ owed + delta) :
    Spec setup (Ledger owed frame) (invoke (.incrementQuota delta))
      (Adjusted owed delta frame) := by
  refine Spec.perform fun w thread choice result b' hok hstep hpre => ?_
  obtain ⟨hused, hframe⟩ := hpre
  have husage := usage_nonneg (books setup w.state).blobs
  rcases hstep with ⟨e, rfl, rfl, he⟩ | ⟨rfl, _, account, hacc, rfl⟩
  · by_cases hneg : delta < 0
    · obtain ⟨account, hacc⟩ := AccountData.incrementQuota_release
        (books setup w.state).account (Int.le_of_lt hneg)
      rcases he with hfault | he
      · rw [hok hneg] at hfault
        cases hfault
      · rw [hacc] at he
        cases he
    · exact ⟨by omega, hused, hframe⟩
  · refine ⟨?_, hframe⟩
    change account.quotaUsed = (books setup w.state).blobs.usage + (owed + delta)
    rw [AccountData.incrementQuota_used hacc (by omega) (by omega)]
    omega

theorem adjustQuota_spec (howed : 0 ≤ owed) (hdelta : 0 ≤ owed + delta) :
    Spec setup (Ledger owed frame) (adjustQuota delta) (Adjusted owed delta frame) := by
  unfold adjustQuota
  split_ifs with hzero
  · exact Spec.done fun b h => ⟨by rw [hzero, Int.add_zero]; exact h.used, h.frame⟩
  · exact incrementQuota_spec howed hdelta

-- A release of all that is owed settles the account.
theorem Adjusted.settled {result : Except AccountError Unit} {b : Books} (howed : 0 ≤ owed)
    (h : Adjusted owed (-owed) frame result b) : Ledger 0 frame b := by
  cases result with
  | ok _ =>
    unfold Adjusted at h
    rwa [show owed + -owed = 0 by omega] at h
  | error e =>
    obtain ⟨hle, h⟩ := h
    rwa [show owed = 0 by omega] at h

theorem adjustQuota_release_spec (howed : 0 ≤ owed) :
    Spec setup (Ledger owed frame) (adjustQuota (-owed)) fun _ => Ledger 0 frame :=
  (adjustQuota_spec howed (by omega)).weaken (fun _ h => h) fun _ _ h => h.settled howed

end Charge

section Store

variable {setup : Setup} {refs : List BlobRef} {frame : Rows → Prop} {data : Bytes} {known : Bool}

def charge (known : Bool) (data : Bytes) : Int := if known then 0 else data.length

theorem charge_nonneg (known : Bool) (data : Bytes) : 0 ≤ charge known data := by
  unfold charge
  split_ifs <;> omega

def Charged (setup : Setup) (known : Bool) (data : Bytes) (refs : List BlobRef)
    (frame : Rows → Prop) : Books → Prop :=
  Ledger (charge known data) fun blobs rows =>
    Holding refs frame blobs rows ∧ known = blobs[setup.hash data]?.isSome

def Stored {ε : Type} (setup : Setup) (owed : Int) (data : Bytes) (refs : List BlobRef)
    (frame : Rows → Prop) (result : Except ε Bytes) (b : Books) : Prop :=
  match result with
  | .ok id => id = setup.hash data ∧ Ledger 0 (Holding (⟨id, data.length⟩ :: refs) frame) b
  | .error _ => Ledger owed (Holding refs frame) b

theorem Charged.stored {result : Except BlobError Bytes} {b b' : Books}
    (hb : Charged setup known data refs frame b)
    (hsame : (b.blobs[setup.hash data]?).all (fun blob => blob.data.length = data.length) = true)
    (hstored : BlobStored setup data result b b') :
    Stored setup (charge known data) data refs frame result b' := by
  obtain ⟨hused, ⟨hrows, hrefs, hframe⟩, hknown⟩ := hb
  rcases hstored with ⟨e, rfl, rfl⟩ | ⟨rfl, blob, hlen, rfl⟩
  · exact ⟨hused, hrows, hrefs, hframe⟩
  have hsize : blob.size = data.length := by unfold Blob.size; omega
  have hold : ∀ old, b.blobs[setup.hash data]? = some old → old.size = blob.size := by
    intro old hold
    rw [hold] at hsame
    simp only [Option.all_some, decide_eq_true_eq] at hsame
    unfold Blob.size
    omega
  refine ⟨rfl, ?_, hrows.insert hold, ?_, hframe⟩
  · simp only [Books.putBlob_account, Books.putBlob_blobs]
    cases hblob : b.blobs[setup.hash data]? with
    | none =>
      rw [hblob] at hknown
      rw [usage_insert_new hblob, hused, hsize, hknown]
      simp [charge]
    | some old =>
      rw [hblob] at hknown
      rw [usage_insert_same hblob (hold old hblob), hused, hknown]
      simp [charge]
  · intro ref href
    rcases List.mem_cons.mp href with rfl | href
    · exact ⟨blob, by simp, hsize⟩
    · exact (hrefs ref href).insert hold

theorem storeMessage_spec :
    Spec setup (Charged setup known data refs frame) (invoke (.storeMessage data))
      (Stored setup (charge known data) data refs frame) :=
  Spec.perform fun _ _ _ _ _ hok hstep hpre => hpre.stored hok hstep

theorem storeWithinLimit_spec :
    Spec setup (Charged setup known data refs frame) (storeWithinLimit data)
      (Stored setup (charge known data) data refs frame) := by
  refine .quiet (fun _ _ _ _ h => h) fun limit => ?_
  split_ifs
  · refine .quiet (fun _ _ _ _ h => h) fun limit => ?_
    exact Spec.perform fun _ _ _ _ _ hok hstep hpre => hpre.stored hok hstep
  · exact storeMessage_spec

-- Asking whether the file is there tells what to charge.
theorem messageExists_spec {α : Type} {rest : Bool → Prog α} {pre : Books → Prop}
    {post : α → Books → Prop}
    (hrest : ∀ known, Spec setup (fun b => pre b ∧ known = b.blobs[setup.hash data]?.isSome)
      (rest known) post) :
    Spec setup pre (invoke (.messageExists (setup.hash data)) >>= rest) post :=
  .read (fun known b => known = b.blobs[setup.hash data]?.isSome)
    (fun _ _ _ _ _ _ hok h => ⟨h.1, h.2.2 hok (setup.hash_valid data)⟩) hrest

theorem adjustQuota_charge_spec :
    Spec setup (fun b => Ledger 0 (Holding refs frame) b ∧
        known = b.blobs[setup.hash data]?.isSome)
      (adjustQuota (charge known data)) fun result b => match result with
        | .ok _ => Charged setup known data refs frame b
        | .error _ => Ledger 0 (Holding refs frame) b := by
  have hnonneg := charge_nonneg known data
  have hcharge := @adjustQuota_spec setup (fun blobs rows => Holding refs frame blobs rows ∧
    known = blobs[setup.hash data]?.isSome) 0 (charge known data) (Int.le_refl 0) (by omega)
  refine hcharge.weaken (fun b h => ⟨h.1.used, h.1.frame, h.2⟩) fun result b h => ?_
  cases result with
  | ok _ =>
    unfold Adjusted at h
    rw [Int.zero_add] at h
    exact h
  | error e => exact h.2.mono fun _ _ hf => hf.1

-- A stored blob is paid for, and a failure costs nothing.
theorem storeBlob_spec :
    Spec setup (Ledger 0 (Holding refs frame)) (storeBlob setup data)
      (Stored setup 0 data refs frame) := by
  refine messageExists_spec fun known => .bind _ adjustQuota_charge_spec fun reserved => ?_
  rcases reserved with e | _
  · exact .done fun _ h => h
  refine .bind _ storeWithinLimit_spec fun stored => ?_
  cases stored with
  | error e =>
    exact .bind _ (adjustQuota_release_spec (charge_nonneg known data)) fun _ =>
      .done fun _ h => h
  | ok id => exact .done fun _ h => h

end Store

section Release

variable {setup : Setup} {known refs : List BlobRef} {frame : Rows → Prop} {id : Bytes} {size : Int}

theorem mem_distinctIDs : id ∈ distinctIDs refs ↔ ∃ ref ∈ refs, ref.id = id := by
  have hmain : ∀ (ids out : List Bytes),
      id ∈ ids.foldl (fun ids id => if id ∈ ids then ids else ids ++ [id]) out ↔
        id ∈ out ∨ id ∈ ids := by
    intro ids
    induction ids with
    | nil => simp
    | cons head rest ih =>
      intro out
      rw [List.foldl_cons, ih, List.mem_cons]
      split_ifs with hin
      · constructor
        · rintro (h | h)
          · exact .inl h
          · exact .inr (.inr h)
        · rintro (h | rfl | h)
          · exact .inl h
          · exact .inl hin
          · exact .inr h
      · rw [List.mem_append, List.mem_singleton, or_assoc]
  rw [distinctIDs, hmain]
  simp

-- The size that counts for an ID is one that some reference recorded.
theorem candidateSize_mem (h : id ∈ distinctIDs refs) :
    (⟨id, candidateSize refs id⟩ : BlobRef) ∈ refs := by
  obtain ⟨ref, href, hid⟩ := mem_distinctIDs.mp h
  have hsome : (refs.reverse.find? (·.id = id)).isSome := by
    rw [List.find?_isSome]
    exact ⟨ref, List.mem_reverse.mpr href, by simpa using hid⟩
  obtain ⟨found, hfound⟩ := Option.isSome_iff_exists.mp hsome
  have hmem := List.mem_reverse.mp (List.mem_of_find?_eq_some hfound)
  have hfid : found.id = id := by simpa using List.find?_some hfound
  unfold candidateSize
  rw [hfound]
  subst hfid
  exact hmem

theorem releaseSize_spec {pre : Books → Prop} (hsized : ∀ b, pre b → Sized b.blobs ⟨id, size⟩) :
    Spec setup pre (releaseSize id size) fun size b => pre b ∧ Sized b.blobs ⟨id, size⟩ := by
  unfold releaseSize
  split_ifs
  · refine .read (fun result b => ∀ data, result = .ok data →
      Sized b.blobs ⟨id, data.length⟩) ?_ fun result => ?_
    · refine fun _ _ _ result b b' _ h => ⟨h.1, fun data hdata _ blob hblob => ?_⟩
      obtain ⟨_, found, hfound, rfl⟩ := h.2 data hdata
      rw [hfound] at hblob
      cases hblob
      rfl
    · cases result with
      | error e => exact .done fun b h => ⟨h.1, hsized b h.1⟩
      | ok data => exact .done fun b h => ⟨h.1, h.2 data rfl⟩
  · exact .done fun b h => ⟨h, hsized b h⟩

theorem releaseOne_spec (href : ⟨id, size⟩ ∈ known)
    (hfree : ∀ rows, frame rows → ¬ Referenced rows id) :
    Spec setup (Ledger 0 (Releasing known frame)) (releaseOne id size)
      fun _ => Ledger 0 (Releasing known frame) := by
  refine .bind _ (releaseSize_spec fun b h => h.frame.2.1 _ href) fun size => ?_
  refine .call (fun result b => match result with
    | .ok _ => 0 ≤ size ∧ Ledger size (Releasing known frame) b
    | .error _ => Ledger 0 (Releasing known frame) b) ?_ fun removed => ?_
  · rintro w thread choice result b' _ hstep ⟨⟨hused, hrows, hknown, hframe⟩, hsized⟩
    rcases hstep with ⟨e, rfl, rfl, _⟩ | ⟨rfl, hvalid, blob, hblob, rfl⟩
    · exact ⟨hused, hrows, hknown, hframe⟩
    have hsize : blob.size = size := hsized hvalid blob hblob
    refine ⟨?_, ?_, hrows.erase (hfree _ hframe),
      fun ref href => (hknown ref href).erase id, hframe⟩
    · rw [← hsize]
      unfold Blob.size
      omega
    · rw [Books.removeBlob_account, Books.removeBlob_blobs, usage_erase hblob]
      omega
  · cases removed with
    | error e => exact .skip
    | ok _ =>
      refine .assuming (0 ≤ size) (fun _ h => h.1) fun hsize => ?_
      refine .bind (fun _ => Ledger 0 (Releasing known frame)) ?_ fun _ => .done fun b h => h
      exact (adjustQuota_release_spec hsize).weaken (fun _ h => h.2) fun _ _ h => h

theorem releaseEach_spec {referenced ids : List Bytes} {refs : List BlobRef}
    (hrefs : ∀ id ∈ ids, (⟨id, candidateSize refs id⟩ : BlobRef) ∈ known)
    (hfree : ∀ rows, frame rows → ∀ id ∈ ids, id ∉ referenced → ¬ Referenced rows id) :
    Spec setup (Ledger 0 (Releasing known frame)) (releaseEach referenced refs ids)
      fun _ => Ledger 0 (Releasing known frame) := by
  induction ids with
  | nil => exact .skip
  | cons id rest ih =>
    refine .bind (fun _ => Ledger 0 (Releasing known frame)) ?_ fun _ =>
      ih (fun id hid => hrefs id (List.mem_cons_of_mem _ hid))
        fun rows h id hid => hfree rows h id (List.mem_cons_of_mem _ hid)
    unfold releaseUnreferenced
    split_ifs with hin
    · exact .skip
    · exact releaseOne_spec (hrefs id List.mem_cons_self)
        fun rows h => hfree rows h id List.mem_cons_self hin

theorem releaseBlobsLocked_spec (hrefs : refs ⊆ known) :
    Spec setup (Ledger 0 (Releasing known frame)) (releaseBlobsLocked refs)
      fun _ => Ledger 0 (Releasing known frame) := by
  unfold releaseBlobsLocked
  split_ifs
  · exact .skip
  refine .read (fun result b => ∀ referenced, result = .ok referenced →
    ∀ id ∈ distinctIDs refs, id ∉ referenced → ¬ Referenced b.row id) ?_ fun result => ?_
  · exact fun _ _ _ _ _ _ _ h => h
  rcases result with e | referenced
  · exact .done fun _ h => h.1
  refine .read (fun order _ => order.Perm (distinctIDs refs)) ?_ fun order => ?_
  · exact fun _ _ _ _ _ _ _ h => h
  refine .assuming _ (fun _ h => h.2) fun hperm => ?_
  -- The answer of the scan joins what is known about the rows.
  refine (@releaseEach_spec setup known (fun rows => frame rows ∧
    ∀ id ∈ distinctIDs refs, id ∉ referenced → ¬ Referenced rows id) referenced order refs
      ?_ ?_).weaken ?_ ?_
  · exact fun id hid => hrefs (candidateSize_mem (hperm.subset hid))
  · exact fun rows h id hid => h.2 id (hperm.subset hid)
  · rintro b ⟨⟨⟨hused, hrows, hknown, hframe⟩, hscan⟩, _⟩
    exact ⟨hused, hrows, hknown, hframe, hscan referenced rfl⟩
  · exact fun _ b h => h.mono fun _ _ hr => ⟨hr.1, hr.2.1, hr.2.2.1⟩

theorem releaseBlobs_spec (hrefs : refs ⊆ known) :
    Spec setup (Ledger 0 (Releasing known frame)) (releaseBlobs refs)
      fun _ => Ledger 0 (Releasing known frame) := by
  unfold releaseBlobs
  split_ifs
  · exact .skip
  · refine .quiet (fun _ _ _ _ h => h) fun _ => .bind _ (releaseBlobsLocked_spec hrefs) fun _ => ?_
    exact .perform fun _ _ _ _ _ _ h hpre => h ▸ hpre

end Release

end UMail.Mailstore
