import UMail.Queue.Rows

namespace UMail.Queue

open Concurrency UMail.Storage UMail.Db

def Call.handsOver (base : Nat) : (c : Call) → c.Result → Bool
  | .claimQueueEntry id _, .ok _ => id.base = base
  | .transmit id _ _, _ => id.base = base
  | _, _ => false

def Handed (log : List (Event sig)) (base : Nat) : Prop :=
  ∃ event ∈ log, event.call.handsOver base event.result = true

-- Enqueue calls that have returned an error have left nothing in the queue, and
-- none of their recipients was handed to delivery.
def FailsCleanly (cfg : Config sig State Outcome) : Prop :=
  ∀ thread err, cfg.pool[thread]? = some (.done (.enqueued (.error err))) →
    ∀ base ∈ issued (ownLog thread cfg.world.log),
      (∀ index, cfg.world.state.rows[EntryID.mk base index]? = none) ∧ ¬ Handed cfg.world.log base

def isRefused : Prog Outcome → Bool
  | .done (.enqueued (.error _)) => true
  | _ => false

theorem eq_done_of_isRefused {program : Prog Outcome} (h : isRefused program = true) :
    ∃ err, program = .done (.enqueued (.error err)) := by
  unfold isRefused at h
  split at h
  · exact ⟨_, rfl⟩
  · cases h

-- One entry fits into the queue. The call for two recipients fails at the second.
def narrowSetup : Setup := { plainSetup with maxQueueSize := 1 }

def overfull : List Task :=
  [.enqueueWithDSN (bytes "s@a") [.plain (bytes "r@b"), .plain (bytes "q@b")] (bytes "m"),
    .sweep 1, .worker 1]

theorem failsCleanly_fails_served_early :
    ¬ ∀ (setup : Setup) (tasks : List Task) (cfg : Config sig State Outcome),
      Run (machine setup) (fun _ _ _ _ => True) (begin setup tasks) cfg → FailsCleanly cfg := by
  intro h
  have hrun : ((begin narrowSetup overfull).replay (machine narrowSetup) (fun _ _ _ _ => True)
      (List.replicate 4 (0, choiceAt 0) ++ List.replicate 6 (1, choiceAt 1) ++
        List.replicate 7 (2, choiceAt 1) ++ List.replicate 3 (0, choiceAt 2))).any (fun cfg =>
        cfg.pool[0]?.any isRefused &&
        (issued (ownLog 0 cfg.world.log)).contains 0 &&
        cfg.world.log.any fun event => event.call.handsOver 0 event.result) = true := by
    decide
  obtain ⟨cfg, hcfg, hfacts⟩ := (Option.any_eq_true _ _).mp hrun
  simp only [Bool.and_eq_true, List.any_eq_true, List.contains_iff_mem] at hfacts
  obtain ⟨⟨hdone, hissued⟩, hhanded⟩ := hfacts
  obtain ⟨program, hprogram, hrefused⟩ := (Option.any_eq_true _ _).mp hdone
  obtain ⟨err, rfl⟩ := eq_done_of_isRefused hrefused
  exact (h narrowSetup overfull cfg (Run.of_replay hcfg) 0 err hprogram 0 hissued).2 hhanded

-- A worker takes an entry only after the call that stored it is over, and a
-- rollback removes what it is there to remove.
def WaitsForEnqueue (w : World sig State) (thread : Nat) : Call → Choice → Prop
  | .claimQueueEntry id _, _ => ¬ Unfinished w id.base
  | .dequeue _, choice => (phaseOf w thread).storing.isSome → choice.fault = false
  | _, _ => True

instance (w : World sig State) (thread : Nat) (c : Call) (choice : Choice) :
    Decidable (WaitsForEnqueue w thread c choice) := by
  apply @Call.casesOn (fun c => Decidable (WaitsForEnqueue w thread c choice)) c
  case claimQueueEntry => exact fun id _ => inferInstanceAs (Decidable (¬ Unfinished w id.base))
  case dequeue =>
    exact fun _ => inferInstanceAs (Decidable ((phaseOf w thread).storing.isSome → choice.fault = false))
  all_goals
    intros
    exact isTrue trivial

-- Nothing of the message is left and nobody can bring it back.
structure Gone (w : World sig State) (base : Nat) : Prop where
  closed : Closed w base
  rows : ∀ index, w.state.rows[EntryID.mk base index]? = none
  unhanded : ¬ Handed w.log base

structure Retracting (w : World sig State) : Prop where
  tidy : Tidy w
  undone : UndoneBelow w
  handed : ∀ base, Handed w.log base → base < w.state.nextBase
  unhanded : ∀ thread base stored, (phaseOf w thread).storing = some (base, stored) →
    ¬ Handed w.log base
  gone : ∀ thread base, phaseOf w thread = .dropped base → Gone w base

section Steps

variable {setup : Setup} {w w' : World sig State} {thread : Nat} {c : Call} {choice : Choice}
  {result : c.Result} {base : Nat}

theorem handed_of_openClaim {own : List (Event sig)} {id : EntryID} {claimed : QueueEntry}
    (h : openClaim own = some (id, claimed)) : Handed own id.base := by
  have hcons : ∀ {event : Event sig} {own : List (Event sig)} {base : Nat},
      Handed own base → Handed (event :: own) base :=
    fun ⟨event, hevent, hhands⟩ => ⟨event, List.mem_cons_of_mem _ hevent, hhands⟩
  induction own with
  | nil => cases h
  | cons event own ih =>
    obtain ⟨t, c, result⟩ := event
    cases c
    case claimQueueEntry id' now =>
      cases result with
      | error _ => exact hcons (ih h)
      | ok _ =>
        cases h
        exact ⟨_, List.mem_cons_self, decide_eq_true rfl⟩
    case updateQueueEntry id' entry =>
      cases result with
      | error _ => exact hcons (ih h)
      | ok _ => exact hcons (ih (Option.filter_eq_some_iff.mp h).1)
    case releaseDomainSlot => cases h
    all_goals exact hcons (ih h)

theorem handed_of_ownLog (h : Handed (ownLog thread w.log) base) : Handed w.log base :=
  h.imp fun _ hevent => ⟨List.mem_of_mem_filter hevent.1, hevent.2⟩

variable (hok : WaitsForEnqueue w thread c choice)
  (h : w.exec (machine setup) thread c choice = some (result, w'))
  (hproper : Proper (ownLog thread w.log) c)
include hok h hproper

-- A message is handed over when it was before, or when one of its entries is
-- claimed now, by somebody who waits for the enqueue call.
theorem handed_exec (hhanded : Handed w'.log base) :
    Handed w.log base ∨ ((∃ index entry, w.state.rows[EntryID.mk base index]? = some entry) ∧
      ¬ Unfinished w base) := by
  obtain ⟨event, hevent, hhands⟩ := hhanded
  rw [(World.exec_eq_some.mp h).2] at hevent
  rcases List.mem_cons.mp hevent with rfl | hbefore
  · cases c
    case claimQueueEntry id now =>
      rcases exec_claimQueueEntry (exec_state h) with ⟨err, rfl, _⟩ | ⟨old, hold, _, rfl, _⟩
      · cases hhands
      · obtain rfl : id.base = base := of_decide_eq_true hhands
        exact .inr ⟨⟨id.index, old, hold⟩, hok⟩
    case transmit id rcpt message =>
      obtain rfl : id.base = base := of_decide_eq_true hhands
      obtain ⟨claimed, hopen⟩ := hproper
      exact .inl (handed_of_ownLog (handed_of_openClaim hopen))
    all_goals cases hhands
  · exact .inl ⟨event, hbefore, hhands⟩

theorem Gone.exec (hgone : Gone w base) : Gone w' base where
  closed := hgone.closed.exec h hproper
  rows index := by
    refine Option.eq_none_iff_forall_ne_some.mpr fun entry hrow => ?_
    rcases old_or_stored h hrow with ⟨old, hold⟩ | rfl
    · rw [hgone.rows index] at hold
      cases hold
    · have hphase : phaseOf w thread = .spooling base index true := hproper.1
      exact absurd (by rw [hphase]; rfl) (hgone.closed.2 thread index)
  unhanded hhanded := by
    rcases handed_exec hok h hproper hhanded with hbefore | ⟨⟨index, entry, hrow⟩, _⟩
    · exact hgone.unhanded hbefore
    · rw [hgone.rows index] at hrow
      cases hrow

-- A thread that has taken everything back leaves nothing.
theorem gone_of_retracted (hw : Retracting w) {stored : Nat}
    (hstoring : (phaseOf w thread).storing = some (base, stored))
    (hphase : phaseOf w' thread = .dropped base) (hc : c.writesRows = false)
    (hrows : ∀ index < stored, w.state.rows[EntryID.mk base index]? = none) : Gone w' base := by
  have hnone : ∀ index, w.state.rows[EntryID.mk base index]? = none := by
    refine fun index => Option.eq_none_iff_forall_ne_some.mpr fun entry hrow => ?_
    have hlt := (hw.tidy.rows _ entry hrow).2 thread stored hstoring
    rw [hrows index hlt] at hrow
    cases hrow
  refine ⟨⟨lt_of_lt_of_le (hw.tidy.below _ _ _ hstoring) (nextBase_le h), ?_⟩, ?_, ?_⟩
  · intro other stored' hother
    by_cases he : other = thread
    · rw [he, hphase] at hother
      cases hother
    · rw [phaseOf_exec_other h he] at hother
      exact he (hw.tidy.alone _ _ _ _ _ hother hstoring)
  · rw [(exec_frame (exec_state h)).rows hc]
    exact hnone
  · intro hhanded
    rcases handed_exec hok h hproper hhanded with hbefore | ⟨⟨index, entry, hrow⟩, _⟩
    · exact hw.unhanded thread base stored hstoring hbefore
    · rw [hnone index] at hrow
      cases hrow

theorem Retracting.gone_exec (hw : Retracting w) (other base : Nat)
    (hphase : phaseOf w' other = .dropped base) : Gone w' base := by
  rcases phaseOf_entered h other with hsame | ⟨rfl, hentered⟩
  · exact (hw.gone other base (hsame ▸ hphase)).exec hok h hproper
  rw [hphase] at hentered
  generalize hbefore : phaseOf w other = before at hentered
  cases hentered with
  | kept => exact (hw.gone other base hbefore).exec hok h hproper
  | unwritten =>
    have hspool : phaseOf w other = .spooling base 0 false := hproper
    have hstoring : (phaseOf w other).storing = some (base, 0) := by rw [hspool]; rfl
    exact gone_of_retracted hok h hproper hw hstoring hphase rfl
      fun index hlt => absurd hlt (Nat.not_lt_zero _)
  | removed =>
    obtain ⟨stored, hundo⟩ := hproper
    have hstoring : (phaseOf w other).storing = some (base, stored) := by
      unfold phaseOf
      rw [hundo]
      rfl
    refine gone_of_retracted hok h ⟨stored, hundo⟩ hw hstoring hphase rfl fun index hlt => ?_
    refine Option.eq_none_iff_forall_ne_some.mpr fun entry hrow => ?_
    exact absurd (hw.undone other base stored stored hundo index entry hrow) (by omega)

theorem Retracting.exec (hw : Retracting w) : Retracting w' where
  tidy := hw.tidy.exec h hproper
  undone := by
    refine hw.undone.exec h hproper hw.tidy ?_
    rintro id rfl
    exact hok
  handed base hhanded := by
    refine lt_of_lt_of_le ?_ (nextBase_le h)
    rcases handed_exec hok h hproper hhanded with hbefore | ⟨⟨index, entry, hrow⟩, _⟩
    · exact hw.handed base hbefore
    · exact (hw.tidy.rows _ entry hrow).1
  unhanded other base stored hstoring hhanded := by
    rcases handed_exec hok h hproper hhanded with hbefore | ⟨⟨index, entry, hrow⟩, hover⟩ <;>
      rcases storing_exec h hproper hstoring with ⟨_, hnext, _⟩ | ⟨before, _, hstored⟩
    · exact Nat.ne_of_lt (hw.handed base hbefore) hnext
    · exact hw.unhanded other base before hstored hbefore
    · exact Nat.ne_of_lt (hw.tidy.rows _ entry hrow).1 hnext
    · exact storing_of_unfinished hover other before hstored
  gone := hw.gone_exec hok h hproper

end Steps

theorem retracting_empty : Retracting ⟨State.empty, []⟩ where
  tidy := tidy_empty
  undone _ _ _ _ h := by cases h
  handed _ h := by
    obtain ⟨_, ⟨⟩, _⟩ := h
  unhanded _ _ _ h := by cases h
  gone _ _ h := by cases h

theorem failsCleanly_of_waitsForEnqueue {setup : Setup} {tasks : List Task}
    {cfg : Config sig State Outcome}
    (hrun : Run (machine setup) WaitsForEnqueue (begin setup tasks) cfg) : FailsCleanly cfg := by
  have hretracting : Retracting cfg.world :=
    run_invariant hrun Retracting (fun _ _ _ _ _ _ hok h hproper hw => hw.exec hok h hproper)
      retracting_empty
  intro thread err hdone base hissued
  have hsettled : (Outcome.enqueued (.error err)).Settled (ownLog thread cfg.world.log) :=
    hrun.acts_done (fun _ own => Orderly own) (fun _ => trivial) (fun _ => Outcome.Settled)
      pool_follows hdone
  have hgone := hretracting.gone thread base (hsettled base hissued)
  exact ⟨hgone.rows, hgone.unhanded⟩

-- The call fails at its second recipient before the worker gets to the first.
theorem failsCleanly_undone_first :
    ∃ cfg, Run (machine narrowSetup) WaitsForEnqueue (begin narrowSetup overfull) cfg ∧
      cfg.pool[0]?.any isRefused ∧ FailsCleanly cfg := by
  have hrun : ((begin narrowSetup overfull).replay (machine narrowSetup) WaitsForEnqueue
      (List.replicate 4 (0, choiceAt 0) ++ List.replicate 6 (1, choiceAt 1) ++
        List.replicate 3 (0, choiceAt 2) ++ List.replicate 5 (2, choiceAt 3))).any (fun cfg =>
        cfg.pool[0]?.any isRefused) = true := by
    decide
  obtain ⟨cfg, hcfg, hfacts⟩ := (Option.any_eq_true _ _).mp hrun
  exact ⟨cfg, Run.of_replay hcfg, hfacts, failsCleanly_of_waitsForEnqueue (Run.of_replay hcfg)⟩

end UMail.Queue
