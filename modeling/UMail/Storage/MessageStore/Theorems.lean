import UMail.Library.MapSum
import UMail.Library.Sequence
import UMail.Storage.MessageStore

namespace UMail.Storage

section Usage

variable {blobs : Blobs} {id : Bytes} {blob old : Blob}

theorem size_nonneg (blob : Blob) : 0 ≤ blob.size := by
  unfold Blob.size
  omega

theorem usage_nonneg (blobs : Blobs) : 0 ≤ blobs.usage :=
  MapSum.total_nonneg Blob.size blobs size_nonneg

theorem usage_erase (h : blobs[id]? = some blob) :
    Blobs.usage (blobs.erase id) = blobs.usage - blob.size := by
  have := MapSum.total_of_getElem? Blob.size blobs h
  unfold Blobs.usage
  unfold MapSum.total at this
  omega

theorem usage_insert_new (h : blobs[id]? = none) :
    Blobs.usage (blobs.insert id blob) = blobs.usage + blob.size := by
  have hinsert := MapSum.total_insert Blob.size blobs id blob
  rw [MapSum.total_erase_of_notMem Blob.size blobs h] at hinsert
  unfold Blobs.usage
  unfold MapSum.total at hinsert
  omega

theorem usage_insert_old (h : blobs[id]? = some old) :
    Blobs.usage (blobs.insert id blob) = blobs.usage - old.size + blob.size := by
  have hinsert := MapSum.total_insert Blob.size blobs id blob
  have hold := MapSum.total_of_getElem? Blob.size blobs h
  unfold Blobs.usage
  unfold MapSum.total at hinsert hold
  omega

theorem usage_insert_same (h : blobs[id]? = some old) (hsize : old.size = blob.size) :
    Blobs.usage (blobs.insert id blob) = blobs.usage := by
  rw [usage_insert_old h]
  omega

theorem usage_insert_le : Blobs.usage (blobs.insert id blob) ≤ blobs.usage + blob.size := by
  cases hold : blobs[id]? with
  | none => rw [usage_insert_new hold]
  | some old =>
    have := size_nonneg old
    rw [usage_insert_old hold]
    omega

end Usage

section Stored

variable (hash : Bytes → Bytes) (env : DiskEnv) (blobs : Blobs) (data : Bytes) (limit : Int)

@[simp] theorem touch_data (blob : Blob) : (env.touch blob).data = blob.data := by
  unfold DiskEnv.touch
  split_ifs <;> rfl

-- A store fails and changes nothing, or there is a file under the hash: the
-- message, or what was taken for it.
def Stores (result : Except BlobError Bytes × Blobs) : Prop :=
  (∃ e, result = (.error e, blobs)) ∨ ∃ blob : Blob, blob.data.length = data.length ∧
    (blob.data = data ∨ blobs[hash data]?.map Blob.data = some blob.data) ∧
      result = (.ok (hash data), blobs.insert (hash data) blob)

theorem stores_storeMessage : Stores hash blobs data (blobs.storeMessage hash env data) := by
  unfold Blobs.storeMessage
  split_ifs
  · exact .inl ⟨_, rfl⟩
  · exact .inl ⟨_, rfl⟩
  · dsimp only
    split
    · exact .inr ⟨_, rfl, .inl rfl, rfl⟩
    rename_i blob hblob
    split_ifs with hlen
    · exact .inr ⟨env.touch blob, by simpa using hlen, .inr (by simp [hblob]), rfl⟩
    · exact .inr ⟨_, rfl, .inl rfl, rfl⟩

theorem stores_storeMessageWithQuota :
    Stores hash blobs data (blobs.storeMessageWithQuota hash env data limit) := by
  unfold Blobs.storeMessageWithQuota
  split
  · exact stores_storeMessage hash env blobs data
  dsimp only
  split
  · rename_i blob hblob
    obtain ⟨hfound, hlen⟩ := Option.filter_eq_some_iff.mp hblob
    simp only [Bool.and_eq_true, decide_eq_true_eq] at hlen
    exact .inr ⟨env.touch blob, by simpa using hlen.2, .inr (by simp [hfound]), rfl⟩
  · split_ifs
    · exact .inl ⟨_, rfl⟩
    · exact .inl ⟨_, rfl⟩
    · exact stores_storeMessage hash env blobs data

variable {hash env blobs data limit}

theorem storeMessage_ok_iff : (∃ id, (blobs.storeMessage hash env data).1 = .ok id) ↔
    env.fault = false ∧ data.length ≤ maxMessageSize := by
  unfold Blobs.storeMessage
  split_ifs with hlen hfault
  · simp [hlen]
  · simp [hfault]
  · dsimp only
    split
    · simp_all
    · split_ifs <;> simp_all

-- A file of the right size is enough. Any other call is counted first.
theorem storeMessageWithQuota_ok_iff (hlimit : 0 < limit) :
    (∃ id, (blobs.storeMessageWithQuota hash env data limit).1 = .ok id) ↔ env.fault = false ∧
      ((∃ blob, blobs[hash data]? = some blob ∧ blob.data.length = data.length) ∨
        blobs.usage + data.length ≤ limit ∧ data.length ≤ maxMessageSize) := by
  unfold Blobs.storeMessageWithQuota
  rw [if_neg (by omega)]
  dsimp only
  split
  · rename_i blob hblob
    obtain ⟨hfound, hlen⟩ := Option.filter_eq_some_iff.mp hblob
    simp only [Bool.and_eq_true, decide_eq_true_eq, Bool.not_eq_true'] at hlen
    simp [hfound, hlen]
  · rename_i hnone
    split_ifs with hfault hover
    · simp [hfault]
    · simp_all [Option.filter_eq_none_iff]
    · rw [storeMessage_ok_iff]
      simp_all [Option.filter_eq_none_iff]

theorem usage_storeMessageWithQuota_le (hlimit : 0 < limit) (h : blobs.usage ≤ limit) :
    Blobs.usage (blobs.storeMessageWithQuota hash env data limit).2 ≤ limit := by
  rcases stores_storeMessageWithQuota hash env blobs data limit with ⟨e, he⟩ | ⟨blob, hlen, -, he⟩
  · rwa [he]
  have hsize : blob.size = data.length := congrArg Nat.cast hlen
  obtain ⟨-, hhit | hfits⟩ := (storeMessageWithQuota_ok_iff hlimit).mp ⟨_, congrArg Prod.fst he⟩
  · obtain ⟨old, hold, hsame⟩ := hhit
    rw [he, usage_insert_same hold (by simp [Blob.size, hsame, hlen])]
    exact h
  · have hle : Blobs.usage (blobs.insert (hash data) blob) ≤ blobs.usage + blob.size := usage_insert_le
    rw [he]
    dsimp only
    omega

end Stored

-- The calls of one user. They exclude each other by the user's lock.
inductive BlobOp
  | storeMessage (data : Bytes)
  | storeMessageWithQuota (data : Bytes) (limit : Int)
  | remove (id : Bytes)

def BlobOp.apply (hash : Bytes → Bytes) : DiskEnv × BlobOp → Blobs → Blobs
  | (env, .storeMessage data), blobs => (blobs.storeMessage hash env data).2
  | (env, .storeMessageWithQuota data limit), blobs =>
    (blobs.storeMessageWithQuota hash env data limit).2
  | (env, .remove id), blobs => (blobs.remove env id).2

def BlobOp.content : BlobOp → Option Bytes
  | .storeMessage data | .storeMessageWithQuota data _ => some data
  | .remove _ => none

-- Every file is named by its hash, and is one of the messages.
def Addressed (hash : Bytes → Bytes) (IsMessage : Bytes → Prop) (blobs : Blobs) : Prop :=
  ∀ id blob, blobs[id]? = some blob → hash blob.data = id ∧ IsMessage blob.data

section Runs

variable {hash : Bytes → Bytes} {IsMessage : Bytes → Prop} {blobs : Blobs}

theorem Addressed.stores (h : Addressed hash IsMessage blobs) {data : Bytes}
    {result : Except BlobError Bytes × Blobs} (hdata : IsMessage data)
    (hstores : Stores hash blobs data result) : Addressed hash IsMessage result.2 := by
  rcases hstores with ⟨e, rfl⟩ | ⟨blob, -, hblob, rfl⟩
  · exact h
  intro id other hother
  rw [Std.ExtTreeMap.getElem?_insert] at hother
  split_ifs at hother with hid
  · cases hother
    obtain rfl := Std.LawfulEqOrd.compare_eq_iff_eq.mp hid
    rcases hblob with heq | hold
    · rw [heq]
      exact ⟨rfl, hdata⟩
    · obtain ⟨old, hfound, heq⟩ := Option.map_eq_some_iff.mp hold
      rw [← heq]
      exact h _ old hfound
  · exact h id other hother

theorem Addressed.apply (h : Addressed hash IsMessage blobs) {op : DiskEnv × BlobOp}
    (hop : ∀ content, op.2.content = some content → IsMessage content) :
    Addressed hash IsMessage (BlobOp.apply hash op blobs) := by
  obtain ⟨env, op⟩ := op
  cases op with
  | storeMessage data => exact h.stores (hop data rfl) (stores_storeMessage hash env blobs data)
  | storeMessageWithQuota data limit =>
    exact h.stores (hop data rfl) (stores_storeMessageWithQuota hash env blobs data limit)
  | remove id =>
    intro other blob hblob
    refine h other blob ?_
    simp only [BlobOp.apply, Blobs.remove] at hblob
    split_ifs at hblob
    · exact hblob
    split at hblob
    · exact hblob
    · rw [Std.ExtTreeMap.getElem?_erase] at hblob
      split_ifs at hblob
      exact hblob

theorem Addressed.run (h : Addressed hash IsMessage blobs) {ops : List (DiskEnv × BlobOp)}
    (hops : ∀ op ∈ ops, ∀ content, op.2.content = some content → IsMessage content) :
    Addressed hash IsMessage (Sequence.run (BlobOp.apply hash) ops blobs) := by
  induction ops generalizing blobs with
  | nil => exact h
  | cons op ops ih =>
    obtain ⟨hop, hrest⟩ := List.forall_mem_cons.mp hops
    exact ih (h.apply hop) hrest

theorem addressed_empty : Addressed hash IsMessage ∅ := by
  intro id blob hblob
  simp at hblob

-- A message over the maximum is refused however much room there is.
theorem storeMessageWithQuota_fails_large : ∃ (data : Bytes) (limit : Int), 0 < limit ∧
    Blobs.usage ∅ + data.length ≤ limit ∧
      ∀ hash env, ¬ ∃ id, (Blobs.storeMessageWithQuota hash env ∅ data limit).1 = .ok id := by
  refine ⟨List.replicate (maxMessageSize + 1) 0, maxMessageSize + 1, by decide, ?_, fun hash env => ?_⟩
  · simp [show Blobs.usage ∅ = 0 from rfl]
  · rw [storeMessageWithQuota_ok_iff (by decide)]
    simp

-- No other message of the run has the same hash.
theorem storeMessageWithQuota_after_run {ops : List (DiskEnv × BlobOp)} {env : DiskEnv} {data : Bytes}
    {limit : Int} (hlimit : 0 < limit) (hfree : ∀ op ∈ ops, ∀ content, op.2.content = some content →
      hash content = hash data → content = data) :
    let blobs : Blobs := Sequence.run (BlobOp.apply hash) ops ∅
    let result := blobs.storeMessageWithQuota hash env data limit
    ((∃ id, result.1 = .ok id) ↔ env.fault = false ∧
      ((∃ (id : Bytes) (blob : Blob), blobs[id]? = some blob ∧ blob.data = data) ∨
        blobs.usage + data.length ≤ limit ∧ data.length ≤ maxMessageSize)) ∧
    (blobs.usage ≤ limit → Blobs.usage result.2 ≤ limit) ∧
    ∀ e, result.1 = .error e → result.2 = blobs := by
  intro blobs result
  have haddressed : Addressed hash _ blobs := addressed_empty.run hfree
  refine ⟨?_, usage_storeMessageWithQuota_le hlimit, fun e he => ?_⟩
  · rw [storeMessageWithQuota_ok_iff hlimit]
    refine and_congr_right fun _ => or_congr_left ⟨?_, ?_⟩
    · rintro ⟨blob, hblob, -⟩
      obtain ⟨hname, hmessage⟩ := haddressed _ blob hblob
      exact ⟨_, blob, hblob, hmessage hname⟩
    · rintro ⟨id, blob, hblob, rfl⟩
      obtain ⟨rfl, -⟩ := haddressed id blob hblob
      exact ⟨blob, hblob, rfl⟩
  · rcases stores_storeMessageWithQuota hash env blobs data limit with ⟨e', he'⟩ | ⟨blob, -, -, he'⟩
    · exact congrArg Prod.snd he'
    · exact nomatch he.symm.trans (congrArg Prod.fst he')

theorem storeMessageWithQuota_after_run_again :
    ∃ name, (Blobs.storeMessageWithQuota id ⟨false, 2, true⟩
      (Sequence.run (BlobOp.apply id) [(⟨false, 1, true⟩, .storeMessage [7, 7])] ∅)
        [7, 7] 1).1 = .ok name := by
  refine (@storeMessageWithQuota_after_run id _ _ _ 1 (by decide) (by simp [BlobOp.content])).1.mpr ?_
  refine ⟨rfl, .inl ⟨[7, 7], ⟨[7, 7], 1⟩, ?_, rfl⟩⟩
  simp [BlobOp.apply, Blobs.storeMessage, maxMessageSize]

end Runs

end UMail.Storage
