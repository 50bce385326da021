import UMail.Queue.Lifecycle

namespace UMail.Queue

open Concurrency UMail.Storage UMail.Db

section Steps

variable {setup : Setup} {w w' : World sig State} {thread : Nat} {c : Call} {choice : Choice}
  {result : c.Result}

def spent (entry : QueueEntry) : Nat :=
  entry.retryCount + if entry.status = .sending ∨ entry.status = .delivered then 1 else 0

structure Tended (limit : Nat) (w : World sig State) : Prop where
  claimed : Claimed w
  counted : ∀ (id : EntryID) (entry : QueueEntry), w.state.rows[id]? = some entry →
    attempts id w.log = spent entry
  below : ∀ (id : EntryID) (entry : QueueEntry), w.state.rows[id]? = some entry →
    entry.final = true ∨ entry.status = .sending ∨
      entry.status = .pending ∧ entry.retryCount < limit ∧ failureNotices id w.log = 0
  worked : ∀ (id : EntryID) (entry : QueueEntry), w.state.rows[id]? = some entry →
    entry.status = .sending → ∃ thread claimed, openClaim (ownLog thread w.log) = some (id, claimed)
  same : ∀ (thread : Nat) (id : EntryID) (claimed entry : QueueEntry),
    openClaim (ownLog thread w.log) = some (id, claimed) → w.state.rows[id]? = some entry →
      entry.retryCount = claimed.retryCount
  noticed : ∀ (thread : Nat) (id : EntryID) (claimed : QueueEntry),
    openClaim (ownLog thread w.log) = some (id, claimed) →
      failureNotices id w.log = notices (ownLog thread w.log)
  bounded : ∀ id, attempts id w.log ≤ limit
  once : ∀ id, failureNotices id w.log ≤ 1
  fresh : ∀ id, ¬ Inserted w id → attempts id w.log = 0 ∧ failureNotices id w.log = 0
  gone : ∀ (thread : Nat) (id : EntryID), missed id (ownLog thread w.log) = true →
    Inserted w id ∧ w.state.rows[id]? = none

-- Where an entry comes from that is there after a step: one that was there
-- before, a new one, one that was just claimed, or the outcome of an attempt.
inductive RowStep (setup : Setup) (w w' : World sig State) (thread : Nat) (c : Call)
    (result : c.Result) (id : EntryID) (entry : QueueEntry) : Prop
  | same (hrow : w.state.rows[id]? = some entry) (hclaims : c.claims id result = false)
      (hrewrites : c.rewrites id result = false)
  | stored (hnew : ¬ Inserted w id) (hpending : entry.status = .pending) (hcount : entry.retryCount = 0)
      (hclaims : c.claims id result = false)
  | claimed {old : QueueEntry} (hrow : w.state.rows[id]? = some old) (hpending : old.status = .pending)
      (hsending : entry.status = .sending) (hcount : entry.retryCount = old.retryCount)
      (hclaims : c.claims id result = true)
      (hopen : openClaim (ownLog thread w'.log) = some (id, entry))
  | recorded {claimed old : QueueEntry} (hopen : openClaim (ownLog thread w.log) = some (id, claimed))
      (hrow : w.state.rows[id]? = some old) (hsettles : Settles setup claimed entry)
      (hsilent : entry.status ≠ .bounced → notices (ownLog thread w.log) = 0)
      (hclaims : c.claims id result = false) (hrewrites : c.rewrites id result = true)
      (hstores : c.stores result = false)

variable {id : EntryID} {own : List (Event sig)} {entry : QueueEntry}

theorem Tended.of_pending {limit : Nat} (hw : Tended limit w)
    (hrow : w.state.rows[id]? = some entry) (hpending : entry.status = .pending) :
    attempts id w.log < limit ∧ failureNotices id w.log = 0 := by
  rcases hw.below id entry hrow with hfinal | hsending | ⟨_, hbelow, hsilent⟩
  · simp [QueueEntry.final, hpending] at hfinal
  · rw [hpending] at hsending
    cases hsending
  · rw [hw.counted id entry hrow]
    exact ⟨by simpa [spent, hpending] using hbelow, hsilent⟩

theorem not_stores_of_claims (h : c.claims id result = true) : c.stores result = false := by
  cases c <;> first | rfl | cases h

theorem notices_of_claims (h : c.claims id result = true) :
    notices (⟨thread, c, result⟩ :: own) = 0 := by
  cases c
  case claimQueueEntry id' now =>
    cases result with
    | error _ => cases h
    | ok _ => rfl
  all_goals cases h

theorem notices_of_stores (hstores : c.stores result = true) (htends : Tends setup own c)
    {claimed : QueueEntry} (hopen : openClaim own = some (id, claimed)) : notices own = 0 := by
  cases c
  case enqueueWithLimit id' entry => exact (htends.2.2 id claimed hopen).1
  all_goals cases hstores

theorem missed_cons (hmissed : missed id (⟨thread, c, result⟩ :: own) = true) :
    missed id own = true ∨ ∃ entry, c = .updateQueueEntry id entry ∧ HEq result
      (Except.error QueueError.notFound : Except QueueError Unit) := by
  cases c
  case updateQueueEntry id' entry =>
    match result with
    | .error .notFound =>
      rcases Bool.or_eq_true_iff.mp hmissed with he | hbefore
      · obtain rfl : id' = id := of_decide_eq_true he
        exact .inr ⟨entry, rfl, HEq.rfl⟩
      · exact .inl hbefore
    | .ok _ | .error .fault | .error .full | .error .notClaimable | .error .noRecipients
    | .error .spool => exact .inl hmissed
  all_goals exact .inl hmissed

variable (h : w.exec (machine setup) thread c choice = some (result, w'))
include h

theorem attempts_exec (id : EntryID) :
    attempts id w'.log = attempts id w.log + if c.claims id result then 1 else 0 := by
  rw [(World.exec_eq_some.mp h).2, attempts, List.countP_cons]
  rfl

theorem failureNotices_exec (id : EntryID) :
    failureNotices id w'.log = failureNotices id w.log +
      if c.stores result &&
        (openClaim (ownLog thread w.log)).any (fun claim => claim.1 = id) then 1 else 0 := by
  rw [(World.exec_eq_some.mp h).2, failureNotices]

theorem rowStep_exec (hw : Claimed w)
    (hworked : ∀ (id : EntryID) (entry : QueueEntry), w.state.rows[id]? = some entry →
      entry.status = .sending → ∃ thread claimed, openClaim (ownLog thread w.log) = some (id, claimed))
    (hlease : WithinLease setup.claimLease w c)
    (hproper : Proper (ownLog thread w.log) c) (htends : Tends setup (ownLog thread w.log) c)
    (hrow : w'.state.rows[id]? = some entry) :
    RowStep setup w w' thread c result id entry := by
  by_cases hclaims : c.claims id result = true
  · cases c
    case claimQueueEntry id' now =>
      rcases exec_claimQueueEntry (exec_state h) with ⟨err, rfl, _⟩ | ⟨old, hold, hpending, rfl, hrows⟩
      · cases hclaims
      obtain rfl : id' = id := of_decide_eq_true hclaims
      rw [hrows, getElem?_insert, if_pos rfl] at hrow
      cases hrow
      refine .claimed hold hpending rfl rfl hclaims ?_
      rw [ownLog_exec h]
      rfl
    all_goals cases hclaims
  rw [Bool.not_eq_true] at hclaims
  by_cases hrewrites : c.rewrites id result = true
  · cases c
    case updateQueueEntry id' new =>
      rcases exec_updateQueueEntry (exec_state h) with ⟨err, rfl, _⟩ | ⟨rfl, ⟨old, hold⟩, hrows⟩
      · cases hrewrites
      obtain rfl : id' = id := of_decide_eq_true hrewrites
      rw [hrows, getElem?_insert, if_pos rfl] at hrow
      cases hrow
      obtain ⟨claimed, hopen, hsettles, hsilent⟩ := htends
      exact .recorded hopen hold hsettles hsilent hclaims hrewrites rfl
    all_goals cases hrewrites
  rw [Bool.not_eq_true] at hrewrites
  cases exec_origin (exec_state h) hrow with
  | kept hold => exact .same hold hclaims hrewrites
  | stored => exact .stored (inserted_of_stored hw.tidy h hproper).1 hproper.2 htends.1 hclaims
  | updated _ => simp [Call.rewrites] at hrewrites
  | claimed _ _ => simp [Call.claims] at hclaims
  | requeued hold hstale =>
    -- An entry that is being sent is within its lease.
    obtain ⟨hsending, _⟩ := Bool.and_eq_true_iff.mp hstale
    obtain ⟨other, claimed, hopen⟩ := hworked id _ hold (of_decide_eq_true hsending)
    have hclaimedAt := ((hw.held other id claimed hopen).2 _ hold).2
    have hfresh := within_of_open hlease hopen
    simp [staleClaim, hclaimedAt, hfresh] at hstale

theorem failureNotices_kept (hno : c.stores result = true →
      ∀ claimed, openClaim (ownLog thread w.log) ≠ some (id, claimed)) :
    failureNotices id w'.log = failureNotices id w.log := by
  rw [failureNotices_exec h, if_neg, Nat.add_zero]
  intro hnotice
  obtain ⟨hstores, hany⟩ := Bool.and_eq_true_iff.mp hnotice
  obtain ⟨⟨id', claimed⟩, hopen, he⟩ := (Option.any_eq_true _ _).mp hany
  obtain rfl : id' = id := of_decide_eq_true he
  exact hno hstores claimed hopen

theorem pending_of_claims (hclaims : c.claims id result = true) :
    ∃ old, w.state.rows[id]? = some old ∧ old.status = .pending := by
  cases c
  case claimQueueEntry id' now =>
    rcases exec_claimQueueEntry (exec_state h) with ⟨err, rfl, _⟩ | ⟨old, hold, hpending, rfl, _⟩
    · cases hclaims
    · obtain rfl : id' = id := of_decide_eq_true hclaims
      exact ⟨old, hold, hpending⟩
  all_goals cases hclaims

theorem gone_kept (ht : Tidy w) (hproper : Proper (ownLog thread w.log) c) (hid : Inserted w id)
    (hnone : w.state.rows[id]? = none) :
    w'.state.rows[id]? = none := by
  refine Option.eq_none_iff_forall_ne_some.mpr fun entry hrow => ?_
  rcases old_or_stored h hrow with ⟨old, hold⟩ | rfl
  · rw [hnone] at hold
    cases hold
  obtain rfl : result = .ok () := by
    rcases exec_enqueueWithLimit (exec_state h) with ⟨err, rfl, hrows⟩ | ⟨rfl, _⟩
    · rw [hrows, hnone] at hrow
      cases hrow
    · rfl
  exact (inserted_of_stored ht h hproper).1 hid

namespace Tended

variable {limit : Nat} {other : Nat} {id : EntryID} {claimed entry : QueueEntry} (hw : Tended limit w)
include hw

theorem counted_exec
    (hstep : RowStep setup w w' thread c result id entry) : attempts id w'.log = spent entry := by
  rw [attempts_exec h]
  cases hstep with
  | same hrow hclaims _ =>
    rw [hclaims]
    exact hw.counted id entry hrow
  | stored hnew hpending hcount hclaims =>
    rw [hclaims, (hw.fresh id hnew).1]
    simp [spent, hpending, hcount]
  | claimed hrow hpending hsending hcount hclaims _ =>
    rw [hclaims, hw.counted id _ hrow]
    simp [spent, hpending, hsending, hcount]
  | recorded hopen hrow hsettles _ hclaims _ _ =>
    rw [hclaims, hw.counted id _ hrow, spent, ((hw.claimed.held thread id _ hopen).2 _ hrow).1,
      hw.same thread id _ _ hopen hrow]
    rcases hsettles with ⟨hdelivered, hcount⟩ | ⟨hcount, hbounced | ⟨hpending, _⟩⟩
    · simp [spent, hdelivered, hcount]
    · simp [spent, hbounced, hcount]
    · simp [spent, hpending, hcount]

theorem below_exec (hlimit : 1 ≤ limit) (hretries : setup.maxRetries ≤ limit)
    (hstep : RowStep setup w w' thread c result id entry) :
    entry.final = true ∨ entry.status = .sending ∨
      entry.status = .pending ∧ entry.retryCount < limit ∧ failureNotices id w'.log = 0 := by
  cases hstep with
  | same hrow _ _ =>
    rcases hw.below id entry hrow with hfinal | hsending | ⟨hpending, hbelow, hsilent⟩
    · exact .inl hfinal
    · exact .inr (.inl hsending)
    · refine .inr (.inr ⟨hpending, hbelow, ?_⟩)
      rw [failureNotices_kept h, hsilent]
      intro _ claimed hopen
      rw [((hw.claimed.held thread id claimed hopen).2 entry hrow).1] at hpending
      cases hpending
  | stored hnew hpending hcount _ =>
    refine .inr (.inr ⟨hpending, by omega, ?_⟩)
    rw [failureNotices_kept h, (hw.fresh id hnew).2]
    exact fun _ claimed hopen => hnew (hw.claimed.held thread id claimed hopen).1
  | claimed _ _ hsending _ _ _ => exact .inr (.inl hsending)
  | recorded hopen _ hsettles hsilent _ _ hstores =>
    rcases hsettles with ⟨hdelivered, _⟩ | ⟨_, hbounced | ⟨hpending, hbelow⟩⟩
    · exact .inl (by simp [QueueEntry.final, hdelivered])
    · exact .inl (by simp [QueueEntry.final, hbounced])
    · refine .inr (.inr ⟨hpending, by omega, ?_⟩)
      rw [failureNotices_kept h, hw.noticed thread id _ hopen, hsilent (by simp [hpending])]
      intro hnotice
      rw [hstores] at hnotice
      cases hnotice

theorem same_exec (hopen : openClaim (ownLog other w'.log) = some (id, claimed))
    (hrow : w'.state.rows[id]? = some entry) (hstep : RowStep setup w w' thread c result id entry) :
    entry.retryCount = claimed.retryCount := by
  rcases openClaim_exec h hopen with ⟨hbefore, hkept⟩ | ⟨_, old, now, _, _, rfl, hrows, _⟩
  · cases hstep with
    | same hold _ _ => exact hw.same other id claimed entry hbefore hold
    | stored hnew _ _ _ => exact absurd (hw.claimed.held other id claimed hbefore).1 hnew
    | claimed hold hpending _ _ _ _ =>
      rw [((hw.claimed.held other id claimed hbefore).2 _ hold).1] at hpending
      cases hpending
    | recorded hmine _ _ _ _ hrewrites _ =>
      rw [hkept (hw.claimed.alone other thread id _ _ hbefore hmine)] at hrewrites
      cases hrewrites
  · rw [hrows, getElem?_insert, if_pos rfl] at hrow
    cases hrow
    rfl

theorem bounded_exec (id : EntryID) : attempts id w'.log ≤ limit := by
  rw [attempts_exec h]
  split_ifs with hclaims
  · obtain ⟨old, hold, hpending⟩ := pending_of_claims h hclaims
    exact (hw.of_pending hold hpending).1
  · exact hw.bounded id

theorem fresh_exec (hproper : Proper (ownLog thread w.log) c) (hnew : ¬ Inserted w' id) :
    attempts id w'.log = 0 ∧ failureNotices id w'.log = 0 := by
  have hbefore : ¬ Inserted w id := fun hid => hnew (hid.exec h hproper)
  obtain ⟨hattempts, hsilent⟩ := hw.fresh id hbefore
  constructor
  · rw [attempts_exec h, hattempts, if_neg]
    intro hclaims
    obtain ⟨old, hold, _⟩ := pending_of_claims h hclaims
    exact hbefore (hw.claimed.tidy.rows id old hold)
  · rw [failureNotices_kept h, hsilent]
    exact fun _ claimed hopen => hbefore (hw.claimed.held thread id claimed hopen).1

variable (htends : Tends setup (ownLog thread w.log) c)
include htends

-- An attempt goes on as long as its entry is there and it is not recorded.
theorem openClaim_kept (hopen : openClaim (ownLog other w.log) = some (id, claimed))
    (hrow : w.state.rows[id]? = some entry) (hrewrites : c.rewrites id result = false) :
    openClaim (ownLog other w'.log) = some (id, claimed) := by
  by_cases hother : other = thread
  · subst hother
    rw [ownLog_exec h]
    cases c
    case claimQueueEntry id' now =>
      rcases result with _ | _
      · exact hopen
      have hnone : openClaim (ownLog other w.log) = none := htends
      rw [hnone] at hopen
      cases hopen
    case updateQueueEntry id' new =>
      rcases result with _ | _
      · exact hopen
      obtain ⟨claimed', hopen', _⟩ := htends
      rw [hopen] at hopen'
      cases hopen'
      simp [Call.rewrites] at hrewrites
    case releaseDomainSlot domain =>
      have hnone := (hw.gone other id (htends id claimed hopen)).2
      rw [hrow] at hnone
      cases hnone
    all_goals exact hopen
  · rw [ownLog_exec_other h hother]
    exact hopen

theorem worked_exec (hstep : RowStep setup w w' thread c result id entry)
    (hsending : entry.status = .sending) :
    ∃ thread claimed, openClaim (ownLog thread w'.log) = some (id, claimed) := by
  cases hstep with
  | same hrow _ hrewrites =>
    obtain ⟨other, claimed, hopen⟩ := hw.worked id entry hrow hsending
    exact ⟨other, claimed, hw.openClaim_kept h htends hopen hrow hrewrites⟩
  | stored _ hpending _ _ =>
    rw [hsending] at hpending
    cases hpending
  | claimed _ _ _ _ _ hopen => exact ⟨thread, entry, hopen⟩
  | recorded _ _ hsettles _ _ _ _ =>
    rcases hsettles with ⟨hstatus, _⟩ | ⟨_, hstatus | ⟨hstatus, _⟩⟩ <;> rw [hsending] at hstatus <;>
      cases hstatus

-- The thread that is at an attempt has itself stored every notice of its failure.
theorem noticed_exec (hopen : openClaim (ownLog other w'.log) = some (id, claimed)) :
    failureNotices id w'.log = notices (ownLog other w'.log) := by
  rcases openClaim_exec h hopen with ⟨hbefore, _⟩ | ⟨rfl, old, now, hold, hpending, rfl, _, hclaims⟩
  · have hcount := hw.noticed other id claimed hbefore
    by_cases hother : other = thread
    · subst hother
      have hany : ((openClaim (ownLog other w.log)).any fun claim => claim.1 = id) = true := by
        rw [hbefore]
        simp
      rw [failureNotices_exec h, hany, ownLog_exec h, hcount]
      cases c
      case enqueueWithLimit id' entry => cases result <;> rfl
      case claimQueueEntry id' now =>
        have hnone : openClaim (ownLog other w.log) = none := htends
        rw [hnone] at hbefore
        cases hbefore
      all_goals rfl
    · rw [ownLog_exec_other h hother, ← hcount]
      refine failureNotices_kept h fun _ claimed' hmine => hother ?_
      exact hw.claimed.alone other thread id claimed claimed' hbefore hmine
  · -- A pending entry has had no notice.
    rw [failureNotices_kept h, (hw.of_pending hold hpending).2, ownLog_exec h]
    · exact (notices_of_claims hclaims).symm
    · intro hstores
      rw [not_stores_of_claims hclaims] at hstores
      cases hstores

theorem once_exec (id : EntryID) :
    failureNotices id w'.log ≤ 1 := by
  rw [failureNotices_exec h]
  split_ifs with hnotice
  · obtain ⟨hstores, hany⟩ := Bool.and_eq_true_iff.mp hnotice
    obtain ⟨⟨id', claimed⟩, hopen, he⟩ := (Option.any_eq_true _ _).mp hany
    obtain rfl : id' = id := of_decide_eq_true he
    rw [hw.noticed thread _ claimed hopen, notices_of_stores hstores htends hopen]
  · exact hw.once id

variable (hproper : Proper (ownLog thread w.log) c)
include hproper

theorem gone_exec (hmissed : missed id (ownLog other w'.log) = true) :
    Inserted w' id ∧ w'.state.rows[id]? = none := by
  have hstays : Inserted w id → w.state.rows[id]? = none →
      Inserted w' id ∧ w'.state.rows[id]? = none := fun hid hnone =>
    ⟨hid.exec h hproper, gone_kept h hw.claimed.tidy hproper hid hnone⟩
  by_cases hother : other = thread
  · subst hother
    rw [ownLog_exec h] at hmissed
    rcases missed_cons hmissed with hbefore | ⟨entry, rfl, hresult⟩
    · obtain ⟨hid, hnone⟩ := hw.gone other id hbefore
      exact hstays hid hnone
    obtain ⟨claimed, hopen, _⟩ := htends
    refine hstays (hw.claimed.held other id claimed hopen).1 ?_
    have hstate := exec_state h
    rw [eq_of_heq hresult] at hstate
    simp only [exec, State.transact, updateQueueEntry, Option.some.injEq, Prod.mk.injEq] at hstate
    obtain ⟨hresult, _⟩ := hstate
    split_ifs at hresult
    · cases hresult
    · split at hresult
      next hnone => exact hnone
      next => cases hresult
  · rw [ownLog_exec_other h hother] at hmissed
    obtain ⟨hid, hnone⟩ := hw.gone other id hmissed
    exact hstays hid hnone

theorem exec (hlimit : 1 ≤ limit) (hretries : setup.maxRetries ≤ limit)
    (hlease : WithinLease setup.claimLease w c) :
    Tended limit w' := by
  have hspares : SparesClaimed w thread c := by
    cases c
    case updateQueueEntry id entry =>
      obtain ⟨claimed, hopen, _⟩ := htends
      refine .inl ?_
      rw [hopen]
      simp
    all_goals trivial
  have hstep : ∀ {id : EntryID} {entry : QueueEntry}, w'.state.rows[id]? = some entry →
      RowStep setup w w' thread c result id entry :=
    rowStep_exec h hw.claimed hw.worked hlease hproper htends
  exact
    { claimed := hw.claimed.exec h hspares hproper hlease
      counted := fun _ _ hrow => hw.counted_exec h (hstep hrow)
      below := fun _ _ hrow => hw.below_exec h hlimit hretries (hstep hrow)
      worked := fun _ _ hrow => hw.worked_exec h htends (hstep hrow)
      same := fun _ _ _ _ hopen hrow => hw.same_exec h hopen hrow (hstep hrow)
      noticed := fun _ _ _ hopen => hw.noticed_exec h htends hopen
      bounded := hw.bounded_exec h
      once := hw.once_exec h htends
      fresh := fun _ hnew => hw.fresh_exec h hproper hnew
      gone := fun _ _ hmissed => hw.gone_exec h htends hproper hmissed }

theorem final_exec (hlease : WithinLease setup.claimLease w c)
    {later : QueueEntry} (hid : Inserted w id) (hfinal : entry.final = true)
    (hrow : ∀ old, w.state.rows[id]? = some old → old = entry)
    (hlater : w'.state.rows[id]? = some later) : later = entry := by
  cases rowStep_exec h hw.claimed hw.worked hlease hproper htends hlater with
  | same hold _ _ => exact hrow later hold
  | stored hnew _ _ _ => exact absurd hid hnew
  | claimed hold hpending _ _ _ _ =>
    rw [← hrow _ hold] at hfinal
    simp [QueueEntry.final, hpending] at hfinal
  | recorded hopen hold _ _ _ _ _ =>
    rw [← hrow _ hold] at hfinal
    simp [QueueEntry.final, ((hw.claimed.held thread id _ hopen).2 _ hold).1] at hfinal

end Tended

end Steps

theorem tended_empty (limit : Nat) : Tended limit ⟨State.empty, []⟩ where
  claimed := claimed_empty
  counted _ _ h := by cases h
  below _ _ h := by cases h
  worked _ _ h := by cases h
  same _ _ _ _ h := by cases h
  noticed _ _ _ h := by cases h
  bounded _ := Nat.zero_le _
  once _ := Nat.zero_le _
  fresh _ _ := ⟨rfl, rfl⟩
  gone _ _ h := by cases h

theorem permitted_of_tending {setup : Setup} {own : List (Event sig)} (h : Tending setup own) :
    Permitted own := by
  induction own with
  | nil => trivial
  | cons event own ih =>
    refine ⟨fun hstores => ?_, ih h.2⟩
    obtain ⟨thread, c, result⟩ := event
    cases c
    case enqueueWithLimit id entry =>
      obtain ⟨_, hsender, hopen⟩ := h.1
      rw [Option.all_eq_true, Option.all_eq_true]
      exact ⟨fun claim hlast => decide_eq_true (hsender claim.1 claim.2 hlast),
        fun claim hclaim => (hopen claim.1 claim.2 hclaim).2⟩
    all_goals cases hstores

section Runs

variable {setup : Setup} {tasks : List Task} {cfg : Config sig State Outcome}

theorem tended_of_run (htasks : ∀ task ∈ tasks, task.retries = false)
    (hrun : Run (machine setup) (Undisturbed setup) (begin setup tasks) cfg) :
    Tended (max 1 setup.maxRetries) cfg.world :=
  run_tended (fun _ _ _ _ hok => hok.2) htasks .start hrun (Tended (max 1 setup.maxRetries))
    (fun _ _ _ _ _ _ hok h hproper htends hw => hw.exec h htends hproper (le_max_left _ _)
      (le_max_right _ _) hok.1) (tended_empty _)

theorem final_of_run (htasks : ∀ task ∈ tasks, task.retries = false)
    (hrun : Run (machine setup) (Undisturbed setup) (begin setup tasks) cfg)
    {later : Config sig State Outcome} (hlater : Run (machine setup) (Undisturbed setup) cfg later) :
    Final cfg.world later.world := by
  intro id entry last hrow hfinal hlast
  have htended := tended_of_run htasks hrun
  have hstays := run_tended (fun _ _ _ _ hok => hok.2) htasks hrun hlater
    (fun w => Tended (max 1 setup.maxRetries) w ∧ Inserted w id ∧
      ∀ old, w.state.rows[id]? = some old → old = entry)
    (fun w thread c choice result w' hok h hproper htends hw =>
      ⟨hw.1.exec h htends hproper (le_max_left _ _) (le_max_right _ _) hok.1, hw.2.1.exec h hproper,
        fun _ hold => hw.1.final_exec h htends hproper hok.1 hw.2.1 hfinal hw.2.2 hold⟩)
    ⟨htended, htended.claimed.tidy.rows id entry hrow, fun old hold => by
      rw [hrow] at hold
      exact (Option.some.inj hold).symm⟩
  exact hstays.2.2 last hlast

-- An entry is attempted at most so often, comes to rest and stays there, and
-- its failure is notified once at most.
theorem lifeCycle (htasks : ∀ task ∈ tasks, task.retries = false)
    (hrun : Run (machine setup) (Undisturbed setup) (begin setup tasks) cfg) :
    LifeCycle (max 1 setup.maxRetries) cfg.world ∧
      ∀ later, Run (machine setup) (Undisturbed setup) cfg later → Final cfg.world later.world := by
  have hw := tended_of_run htasks hrun
  refine ⟨⟨hw.bounded, ?_, hw.once, fun thread => ?_⟩, fun later => final_of_run htasks hrun⟩
  · intro id entry hrow hlive
    rcases hw.below id entry hrow with hfinal | hsending | ⟨hpending, -⟩
    · rw [hlive] at hfinal
      cases hfinal
    · exact .inl (hw.worked id entry hrow hsending)
    · exact .inr ⟨hpending, (hw.of_pending hrow hpending).1⟩
  · exact permitted_of_tending (run_tending (fun _ _ _ _ hok => hok.2) htasks hrun thread)

end Runs

def twoAttempts : Setup := { plainSetup with maxRetries := 2 }

def triedTwice : List Task :=
  [.enqueueWithDSN (bytes "s@a") [.plain (bytes "r@b")] (bytes "m"), .worker 1, .sweep 1, .worker 1]

-- Both attempts fail, and the sender hears of it.
theorem lifeCycle_bounced :
    ∃ cfg, Run (machine twoAttempts) (Undisturbed twoAttempts) (begin twoAttempts triedTwice) cfg ∧
      (cfg.world.state.rows[EntryID.mk 0 0]?.any fun entry => entry.status = .bounced) = true ∧
      failureNotices ⟨0, 0⟩ cfg.world.log = 1 ∧ LifeCycle 2 cfg.world := by
  have hrun : ((begin twoAttempts triedTwice).replay (machine twoAttempts) (Undisturbed twoAttempts)
      (List.replicate 5 (0, choiceAt 0) ++
        List.replicate 13 (1, ⟨false, 1, 5 * minute, .temporary []⟩) ++
        List.replicate 6 (2, choiceAt (10 * minute)) ++
        List.replicate 23 (3, ⟨false, 10 * minute, 0, .temporary []⟩))).any (fun cfg =>
        (cfg.world.state.rows[EntryID.mk 0 0]?.any fun entry => entry.status = .bounced) &&
          failureNotices ⟨0, 0⟩ cfg.world.log == 1) = true := by
    decide
  obtain ⟨cfg, hcfg, hfacts⟩ := (Option.any_eq_true _ _).mp hrun
  obtain ⟨hbounced, hnotices⟩ := Bool.and_eq_true_iff.mp hfacts
  have hcycle := lifeCycle (by decide) (Run.of_replay hcfg)
  exact ⟨cfg, Run.of_replay hcfg, hbounced, beq_iff_eq.mp hnotices, hcycle.1⟩

end UMail.Queue
