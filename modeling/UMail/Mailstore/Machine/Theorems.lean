import UMail.Mailstore.Machine

namespace UMail.Mailstore

open Concurrency UMail.Storage UMail.Db

variable {setup : Setup} {thread : Nat} {choice : Choice} {s s' : State}
  {α : Type} {call : DiskEnv → Blobs → α × Blobs}

def dbEffect (setup : Setup) (choice : Choice) (c : Call) (db : Database) : Database :=
  match c with
  | .createMailbox mailbox => (db.createMailbox choice.env setup.user mailbox).2
  | .deleteMailbox mailbox => (db.deleteMailbox choice.env setup.user mailbox).2
  | .getNextUID mailbox => (db.getNextUID choice.env setup.user mailbox).2
  | .storeMessageMetadata mailbox uid metadata | .updateMessageMetadata mailbox uid metadata =>
    (db.storeMessageMetadata choice.env setup.user mailbox uid (some metadata)).2
  | .updateMessageMetadataFunc mailbox uid fn =>
    (db.updateMessageMetadataFunc choice.env setup.user mailbox uid fn).2
  | .deleteMessage mailbox uid => (db.deleteMessage choice.env setup.user mailbox uid).2
  | _ => db

theorem blobCall_eq_some {result : α} (h : s.blobCall choice call = some (result, s')) :
    s.held .blobs = none ∧ result = (call choice.disk s.blobs).1 ∧
      s' = { s with blobs := (call choice.disk s.blobs).2 } := by
  unfold State.blobCall at h
  split_ifs at h with hfree
  cases h
  exact ⟨hfree, rfl, rfl⟩

theorem sweepCall_eq_some {result : α} (h : s.sweepCall thread choice call = some (result, s')) :
    s.held .blobs = some thread ∧ result = (call choice.disk s.blobs).1 ∧
      s' = { s with blobs := (call choice.disk s.blobs).2 } := by
  unfold State.sweepCall at h
  split_ifs at h with hheld
  cases h
  exact ⟨hheld, rfl, rfl⟩

theorem incrementQuota_cases (delta : Int) : (∃ e, s.incrementQuota choice delta = (.error e, s)) ∨
      ∃ account, choice.fault = false ∧ s.account.incrementQuota delta = .ok account ∧
        s.incrementQuota choice delta = (.ok (), { s with account := account }) := by
  unfold State.incrementQuota
  split_ifs with hfault
  · exact .inl ⟨_, rfl⟩
  · cases h : s.account.incrementQuota delta with
    | error e => exact .inl ⟨e, rfl⟩
    | ok account => exact .inr ⟨account, by simpa using hfault, rfl, rfl⟩

def heldEffect (thread : Nat) (c : Call) (held : Lock → Option Nat) : Lock → Option Nat :=
  match c with
  | .lock l => fun other => if other = l then some thread else held other
  | .unlock l => fun other => if other = l then none else held other
  | _ => held

variable {c : Call} {result : c.Result} {l : Lock}

theorem exec_effects (h : exec setup thread choice s c = some (result, s')) :
    s'.db = dbEffect setup choice c s.db ∧ s'.held = heldEffect thread c s.held := by
  cases c
  case storeMessage | storeMessageWithQuota | deleteMessageUnchecked =>
    simp only [exec] at h
    rw [(blobCall_eq_some h).2.2]
    exact ⟨rfl, rfl⟩
  case orphanCandidates | removeOrphan =>
    simp only [exec] at h
    rw [(sweepCall_eq_some h).2.2]
    exact ⟨rfl, rfl⟩
  case lock | unlock | mapOrder =>
    simp only [exec] at h
    split_ifs at h
    cases h
    exact ⟨rfl, rfl⟩
  case incrementQuota delta =>
    simp only [exec] at h
    rcases incrementQuota_cases delta with ⟨e, he⟩ | ⟨a, _, _, he⟩
    · rw [he] at h
      cases h
      exact ⟨rfl, rfl⟩
    · rw [he] at h
      cases h
      exact ⟨rfl, rfl⟩
  all_goals
    cases h
    exact ⟨rfl, rfl⟩

theorem exec_db (h : exec setup thread choice s c = some (result, s')) :
    s'.db = dbEffect setup choice c s.db := (exec_effects h).1

theorem exec_held (h : exec setup thread choice s c = some (result, s')) :
    s'.held = heldEffect thread c s.held := (exec_effects h).2

theorem exec_lock {result : Unit}
    (h : exec setup thread choice s (.lock l) = some (result, s')) : s.held l = none := by
  simp only [exec] at h
  split_ifs at h with hfree
  exact hfree

theorem exec_unlock {result : Unit}
    (h : exec setup thread choice s (.unlock l) = some (result, s')) :
    s.held l = some thread := by
  simp only [exec] at h
  split_ifs at h with hheld
  exact hheld

theorem getMessageUIDs_ok {mailbox : Bytes} {uids : List UInt32}
    (h : exec setup thread choice s (.getMessageUIDs mailbox) = some (.ok uids, s')) :
    uids = s.db.getMessageUIDs setup.user mailbox := by
  simp only [exec, view, Option.some.injEq, Prod.mk.injEq] at h
  split_ifs at h
  · cases h.1
  · exact (Except.ok.inj h.1).symm

end UMail.Mailstore
