import UMail.Queue.Rows

namespace UMail.Queue

open Concurrency UMail.Storage UMail.Db

def Call.recordsDelivery (id : EntryID) : (c : Call) → c.Result → Bool
  | .updateQueueEntry id' entry, .ok _ => id' = id && entry.status = .delivered
  | _, _ => false

def Call.rewrites (id : EntryID) : (c : Call) → c.Result → Bool
  | .updateQueueEntry id' _, .ok _ => id' = id
  | _, _ => false

def Call.claims (id : EntryID) : (c : Call) → c.Result → Bool
  | .claimQueueEntry id' _, .ok _ => id' = id
  | _, _ => false

def Delivered (log : List (Event sig)) (id : EntryID) : Prop :=
  ∃ event ∈ log, event.call.recordsDelivery id event.result = true

-- No entry is claimed after its delivery was recorded.
def NeverReclaimed : List (Event sig) → Prop
  | [] => True
  | event :: before => (∀ id, event.call.claims id event.result = true → ¬ Delivered before id) ∧
      NeverReclaimed before

structure SingleDelivery (w : World sig State) : Prop where
  alone : ∀ thread other id claimed claimed',
    openClaim (ownLog thread w.log) = some (id, claimed) →
    openClaim (ownLog other w.log) = some (id, claimed') → thread = other
  once : NeverReclaimed w.log

-- When stale claims are reverted, no attempt is still open that was begun a
-- lease ago.
def WithinLease (lease : Int) (w : World sig State) : Call → Prop
  | .requeueStaleClaims now => ∀ event ∈ w.log, ((openClaim (ownLog event.thread w.log)).all
      fun claim => claim.2.claimedAt.any fun claimedAt => now - claimedAt < lease) = true
  | _ => True

instance (lease : Int) (w : World sig State) (c : Call) : Decidable (WithinLease lease w c) := by
  apply @Call.casesOn (fun c => Decidable (WithinLease lease w c)) c
  case requeueStaleClaims => exact fun now => List.decidableBAll (fun event : Event sig =>
      ((openClaim (ownLog event.thread w.log)).all
        fun claim => claim.2.claimedAt.any fun claimedAt => now - claimedAt < lease) = true) w.log
  all_goals
    intros
    exact isTrue trivial

def retriedWhileSending : List Task :=
  [.enqueueWithDSN (bytes "s@a") [.plain (bytes "r@b")] (bytes "m"), .worker 1, .retry ⟨0, 0⟩,
    .worker 1]

theorem singleDelivery_fails_retried :
    ¬ ∀ (setup : Setup) (tasks : List Task) (cfg : Config sig State Outcome),
      Run (machine setup) (fun w _ c _ => WithinLease setup.claimLease w c) (begin setup tasks) cfg →
        SingleDelivery cfg.world := by
  intro h
  have hrun : ((begin plainSetup retriedWhileSending).replay (machine plainSetup)
      (fun w _ c _ => WithinLease plainSetup.claimLease w c)
      (List.replicate 5 (0, choiceAt 0) ++ List.replicate 4 (1, choiceAt 1) ++
        List.replicate 5 (2, choiceAt 2) ++ List.replicate 4 (3, choiceAt 3))).any (fun cfg =>
        (openClaim (ownLog 1 cfg.world.log)).any (fun claim => claim.1 = ⟨0, 0⟩) &&
        (openClaim (ownLog 3 cfg.world.log)).any (fun claim => claim.1 = ⟨0, 0⟩)) = true := by
    decide
  obtain ⟨cfg, hcfg, hfacts⟩ := (Option.any_eq_true _ _).mp hrun
  simp only [Bool.and_eq_true, Option.any_eq_true, decide_eq_true_eq, Prod.exists] at hfacts
  obtain ⟨⟨id, first, hfirst, rfl⟩, ⟨id', second, hsecond, rfl⟩⟩ := hfacts
  have hsingle := h plainSetup retriedWhileSending cfg (Run.of_replay hcfg)
  cases hsingle.alone 1 3 ⟨0, 0⟩ first second hfirst hsecond

-- An entry that is being sent or was delivered is rewritten only by the worker
-- that is at it.
def SparesClaimed (w : World sig State) (thread : Nat) : Call → Prop
  | .updateQueueEntry id _ =>
    (openClaim (ownLog thread w.log)).any (fun claim => claim.1 = id) ∨
      (w.state.rows[id]?.any fun old => old.status = .sending || old.status = .delivered) = false
  | _ => True

instance (w : World sig State) (thread : Nat) (c : Call) : Decidable (SparesClaimed w thread c) := by
  apply @Call.casesOn (fun c => Decidable (SparesClaimed w thread c)) c
  case updateQueueEntry => exact fun _ _ => inferInstanceAs (Decidable (_ = true ∨ _ = false))
  all_goals
    intros
    exact isTrue trivial

-- The entry a worker is at stays as the worker claimed it, and a delivered one
-- stays delivered.
structure Claimed (w : World sig State) : Prop where
  tidy : Tidy w
  alone : ∀ thread other id claimed claimed',
    openClaim (ownLog thread w.log) = some (id, claimed) →
    openClaim (ownLog other w.log) = some (id, claimed') → thread = other
  held : ∀ thread id claimed, openClaim (ownLog thread w.log) = some (id, claimed) →
    Inserted w id ∧ ∀ entry : QueueEntry, w.state.rows[id]? = some entry →
      entry.status = .sending ∧ entry.claimedAt = claimed.claimedAt
  delivered : ∀ id, Delivered w.log id →
    Inserted w id ∧ ∀ entry : QueueEntry, w.state.rows[id]? = some entry → entry.status = .delivered
  once : NeverReclaimed w.log

section Steps

variable {setup : Setup} {w w' : World sig State} {thread other : Nat} {c : Call} {choice : Choice}
  {result : c.Result} {id : EntryID} {claimed : QueueEntry}

theorem within_of_open {lease now : Int} (hlease : WithinLease lease w (.requeueStaleClaims now))
    (hopen : openClaim (ownLog other w.log) = some (id, claimed)) :
    (claimed.claimedAt.any fun claimedAt => now - claimedAt < lease) = true := by
  have hown : ownLog other w.log ≠ [] := by
    intro hown
    rw [hown] at hopen
    cases hopen
  obtain ⟨event, hlog, rfl⟩ := exists_event_of_ownLog hown
  have hall := hlease event hlog
  rw [hopen] at hall
  exact hall

variable (h : w.exec (machine setup) thread c choice = some (result, w'))
include h

-- An attempt is open because it was open before and this step does not end it,
-- or because it has just been begun.
theorem openClaim_exec (hopen : openClaim (ownLog other w'.log) = some (id, claimed)) :
    (openClaim (ownLog other w.log) = some (id, claimed) ∧
      (other = thread → c.rewrites id result = false)) ∨
      other = thread ∧ ∃ old now, w.state.rows[id]? = some old ∧ old.status = .pending ∧
        claimed = { old with status := .sending, claimedAt := some now } ∧
        w'.state.rows = w.state.rows.insert id claimed ∧ c.claims id result = true := by
  by_cases hother : other = thread
  · subst hother
    rw [ownLog_exec h] at hopen
    cases c
    case claimQueueEntry id' now =>
      rcases exec_claimQueueEntry (exec_state h) with ⟨err, rfl, _⟩ | ⟨old, hold, hp, rfl, hrows⟩
      · exact .inl ⟨hopen, fun _ => rfl⟩
      · cases hopen
        exact .inr ⟨rfl, old, now, hold, hp, rfl, hrows, decide_eq_true rfl⟩
    case updateQueueEntry id' entry =>
      cases result with
      | error _ => exact .inl ⟨hopen, fun _ => rfl⟩
      | ok _ =>
        obtain ⟨hbefore, hne⟩ := Option.filter_eq_some_iff.mp hopen
        exact .inl ⟨hbefore, fun _ => decide_eq_false (Ne.symm (of_decide_eq_true hne))⟩
    case releaseDomainSlot => cases hopen
    all_goals exact .inl ⟨hopen, fun _ => rfl⟩
  · rw [ownLog_exec_other h hother] at hopen
    exact .inl ⟨hopen, fun he => absurd he hother⟩

namespace Claimed

variable (hw : Claimed w)
include hw

theorem alone_exec (a b : Nat) (id : EntryID) (claimed claimed' : QueueEntry)
    (ha : openClaim (ownLog a w'.log) = some (id, claimed))
    (hb : openClaim (ownLog b w'.log) = some (id, claimed')) : a = b := by
  rcases openClaim_exec h ha with ⟨ha', _⟩ | ⟨hat, old, _, hold, hpending, _⟩ <;>
    rcases openClaim_exec h hb with ⟨hb', _⟩ | ⟨hbt, old', _, hold', hpending', _⟩
  · exact hw.alone a b id claimed claimed' ha' hb'
  · rw [((hw.held a id claimed ha').2 old' hold').1] at hpending'
    cases hpending'
  · rw [((hw.held b id claimed' hb').2 old hold).1] at hpending
    cases hpending
  · rw [hat, hbt]

theorem once_exec : NeverReclaimed w'.log := by
  rw [(World.exec_eq_some.mp h).2]
  refine ⟨?_, hw.once⟩
  intro id hclaims hdone
  cases c
  case claimQueueEntry id' now =>
    rcases exec_claimQueueEntry (exec_state h) with ⟨err, rfl, _⟩ | ⟨old, hold, hpending, rfl, _⟩
    · cases hclaims
    · obtain rfl : id' = id := of_decide_eq_true hclaims
      rw [(hw.delivered _ hdone).2 old hold] at hpending
      cases hpending
  all_goals cases hclaims

variable (hok : SparesClaimed w thread c) (hproper : Proper (ownLog thread w.log) c)
include hok hproper

theorem delivered_exec (id : EntryID) (hdone : Delivered w'.log id) :
    Inserted w' id ∧ ∀ entry : QueueEntry, w'.state.rows[id]? = some entry →
      entry.status = .delivered := by
  obtain ⟨event, hevent, hrecords⟩ := hdone
  rw [(World.exec_eq_some.mp h).2] at hevent
  rcases List.mem_cons.mp hevent with rfl | hbefore
  · -- The delivery is recorded by this step.
    cases c
    case updateQueueEntry id' new =>
      rcases exec_updateQueueEntry (exec_state h) with ⟨err, rfl, _⟩ | ⟨rfl, ⟨old, hold⟩, hrows⟩
      · cases hrecords
      obtain ⟨he, hstatus⟩ := Bool.and_eq_true_iff.mp hrecords
      obtain rfl : id' = id := of_decide_eq_true he
      refine ⟨(hw.tidy.rows _ old hold).exec h hproper, ?_⟩
      intro entry hrow
      rw [hrows, getElem?_insert, if_pos rfl] at hrow
      cases hrow
      exact of_decide_eq_true hstatus
    all_goals cases hrecords
  · obtain ⟨hinserted, hdelivered⟩ := hw.delivered id ⟨event, hbefore, hrecords⟩
    refine ⟨hinserted.exec h hproper, ?_⟩
    intro entry hrow
    cases exec_origin (exec_state h) hrow with
    | kept hold => exact hdelivered entry hold
    | stored => exact absurd hinserted (inserted_of_stored hw.tidy h hproper).1
    | updated hold =>
      rcases hok with hmine | hspared
      · obtain ⟨⟨id', claimed⟩, hclaim, he⟩ := (Option.any_eq_true _ _).mp hmine
        obtain rfl : id' = id := of_decide_eq_true he
        have hsending := ((hw.held thread _ claimed hclaim).2 _ hold).1
        rw [hdelivered _ hold] at hsending
        cases hsending
      · rw [hold] at hspared
        simp [hdelivered _ hold] at hspared
    | claimed hold hpending =>
      rw [hdelivered _ hold] at hpending
      cases hpending
    | requeued hold hstale => simp [staleClaim, hdelivered _ hold] at hstale

theorem held_exec (hlease : WithinLease setup.claimLease w c) (other : Nat) (id : EntryID)
    (claimed : QueueEntry)
    (hopen : openClaim (ownLog other w'.log) = some (id, claimed)) :
    Inserted w' id ∧ ∀ entry : QueueEntry, w'.state.rows[id]? = some entry →
      entry.status = .sending ∧ entry.claimedAt = claimed.claimedAt := by
  rcases openClaim_exec h hopen with ⟨hbefore, hkept⟩ | ⟨_, old, now, hold, _, rfl, hrows, _⟩
  · obtain ⟨hinserted, hheld⟩ := hw.held other id claimed hbefore
    refine ⟨hinserted.exec h hproper, ?_⟩
    intro entry hrow
    cases exec_origin (exec_state h) hrow with
    | kept hold => exact hheld entry hold
    | stored => exact absurd hinserted (inserted_of_stored hw.tidy h hproper).1
    | updated hold =>
      rcases hok with hmine | hspared
      · obtain ⟨⟨id', claimed'⟩, hclaim, he⟩ := (Option.any_eq_true _ _).mp hmine
        obtain rfl : id' = id := of_decide_eq_true he
        have hsame := hw.alone other thread _ claimed claimed' hbefore hclaim
        exact absurd (hkept hsame) (by simp [Call.rewrites])
      · rw [hold] at hspared
        simp [(hheld _ hold).1] at hspared
    | claimed hold hpending =>
      rw [(hheld _ hold).1] at hpending
      cases hpending
    | requeued hold hstale =>
      obtain ⟨hsending, hclaimedAt⟩ := hheld _ hold
      have hfresh := within_of_open hlease hbefore
      simp [staleClaim, hclaimedAt, hfresh] at hstale
  · refine ⟨(hw.tidy.rows id old hold).exec h hproper, ?_⟩
    intro entry hrow
    rw [hrows, getElem?_insert, if_pos rfl] at hrow
    cases hrow
    exact ⟨rfl, rfl⟩

theorem exec (hlease : WithinLease setup.claimLease w c) : Claimed w' where
  tidy := hw.tidy.exec h hproper
  alone := hw.alone_exec h
  held := hw.held_exec h hok hproper hlease
  delivered := hw.delivered_exec h hok hproper
  once := hw.once_exec h

end Claimed

end Steps

theorem claimed_empty : Claimed ⟨State.empty, []⟩ where
  tidy := tidy_empty
  alone _ _ _ _ _ h := by cases h
  held _ _ _ h := by cases h
  delivered _ h := by
    obtain ⟨_, hevent, _⟩ := h
    cases hevent
  once := trivial

theorem singleDelivery_of_sparesClaimed {setup : Setup} {tasks : List Task}
    {cfg : Config sig State Outcome}
    (hrun : Run (machine setup)
      (fun w thread c _ => WithinLease setup.claimLease w c ∧ SparesClaimed w thread c)
      (begin setup tasks) cfg) : SingleDelivery cfg.world := by
  have hclaimed : Claimed cfg.world :=
    run_invariant hrun Claimed
      (fun _ _ _ _ _ _ hok h hproper hw => hw.exec h hok.2 hproper hok.1) claimed_empty
  exact ⟨hclaimed.alone, hclaimed.once⟩

-- A failed entry is retried once no worker is at it any more.
theorem singleDelivery_retried_later :
    ∃ cfg, Run (machine plainSetup)
      (fun w thread c _ => WithinLease plainSetup.claimLease w c ∧ SparesClaimed w thread c)
      (begin plainSetup retriedWhileSending) cfg ∧
      (openClaim (ownLog 3 cfg.world.log)).any (fun claim => claim.1 = ⟨0, 0⟩) ∧
      SingleDelivery cfg.world := by
  have hrun : ((begin plainSetup retriedWhileSending).replay (machine plainSetup)
      (fun w thread c _ => WithinLease plainSetup.claimLease w c ∧ SparesClaimed w thread c)
      (List.replicate 5 (0, choiceAt 0) ++
        List.replicate 12 (1, ⟨false, 1, 5 * minute, .temporary (bytes "4")⟩) ++
        List.replicate 5 (2, choiceAt 2) ++ List.replicate 4 (3, choiceAt 3))).any (fun cfg =>
        (openClaim (ownLog 3 cfg.world.log)).any (fun claim => claim.1 = ⟨0, 0⟩)) = true := by
    decide
  obtain ⟨cfg, hcfg, hfacts⟩ := (Option.any_eq_true _ _).mp hrun
  exact ⟨cfg, Run.of_replay hcfg, hfacts, singleDelivery_of_sparesClaimed (Run.of_replay hcfg)⟩

end UMail.Queue
