import UMail.Queue.Rows

namespace UMail.Queue

open Concurrency UMail.Storage UMail.Db

def liveRows (rows : QueueRows) : Nat := (rows.toList.filter fun row => !row.2.final).length

def NoFinal (rows : QueueRows) : Prop :=
  ∀ (id : EntryID) (entry : QueueEntry), rows[id]? = some entry → entry.final = false

-- With this limit an entry is refused for want of room only when there is no
-- room left between live entries.
def CountsLive (maxSize : Nat) (rows : QueueRows) : Prop :=
  ∀ (fault : Bool) (id : EntryID) (entry : QueueEntry),
    (enqueueWithLimit fault rows id entry maxSize).1 = .error .full → maxSize ≤ liveRows rows

section Count

variable {rows : QueueRows} {maxSize : Nat}

theorem liveRows_le_size : liveRows rows ≤ rows.size := by
  rw [← Std.ExtTreeMap.length_toList]
  exact List.length_filter_le _ _

theorem liveRows_eq_size_iff : liveRows rows = rows.size ↔ NoFinal rows := by
  rw [← Std.ExtTreeMap.length_toList, liveRows, List.length_filter_eq_length_iff]
  constructor
  · intro h id entry hrow
    simpa using h (id, entry) (Std.ExtTreeMap.mem_toList_iff_getElem?_eq_some.mpr hrow)
  · intro h row hrow
    simpa using h row.1 row.2 (Std.ExtTreeMap.mem_toList_iff_getElem?_eq_some.mp hrow)

-- All rows count, whatever their state.
theorem enqueueWithLimit_full {fault : Bool} {id : EntryID} {entry : QueueEntry} :
    (enqueueWithLimit fault rows id entry maxSize).1 = .error .full ↔
      fault = false ∧ maxSize ≤ rows.size := by
  unfold enqueueWithLimit
  split_ifs with hfault hsize
  · simp [hfault]
  · simpa [hfault] using hsize
  · simpa [hfault] using hsize

theorem countsLive_iff :
    CountsLive maxSize rows ↔ maxSize ≤ rows.size → maxSize ≤ liveRows rows := by
  constructor
  · intro h hsize
    exact h false ⟨0, 0⟩ (newEntry [] 0 (.plain [])) (enqueueWithLimit_full.mpr ⟨rfl, hsize⟩)
  · intro h fault id entry hfull
    exact h (enqueueWithLimit_full.mp hfull).2

-- As many entries as there are rows is a limit that shows a finished one.
theorem countsLive_every_iff : (∀ maxSize, CountsLive maxSize rows) ↔ NoFinal rows := by
  simp only [countsLive_iff, ← liveRows_eq_size_iff]
  constructor
  · intro h
    exact Nat.le_antisymm liveRows_le_size (h rows.size (Nat.le_refl _))
  · intro h maxSize hsize
    rwa [h]

end Count

def oneRoom : Setup := { plainSetup with maxQueueSize := 1 }

def oneMessage : List Task :=
  [.enqueueWithDSN (bytes "s@a") [.plain (bytes "r@b")] (bytes "m"), .worker 1]

-- The message is delivered and its row stays, so that there is no room for the
-- next one although nothing is left to deliver.
theorem countsLive_fails_delivered :
    ¬ ∀ (setup : Setup) (tasks : List Task) (cfg : Config sig State Outcome),
      Run (machine setup) (fun _ _ _ choice => choice.fault = false) (begin setup tasks) cfg →
        CountsLive setup.maxQueueSize cfg.world.state.rows := by
  intro h
  have hrun : ((begin oneRoom oneMessage).replay (machine oneRoom)
      (fun _ _ _ choice => choice.fault = false)
      (List.replicate 5 (0, choiceAt 0) ++ List.replicate 16 (1, choiceAt 1))).any (fun cfg =>
        cfg.pool.all Program.isDone &&
        cfg.world.state.rows.size == 1 && liveRows cfg.world.state.rows == 0) = true := by
    decide
  obtain ⟨cfg, hcfg, hfacts⟩ := (Option.any_eq_true _ _).mp hrun
  simp only [Bool.and_eq_true, beq_iff_eq] at hfacts
  have hle := countsLive_iff.mp (h oneRoom oneMessage cfg (Run.of_replay hcfg)) hfacts.1.2.ge
  rw [hfacts.2] at hle
  exact absurd hle (by decide)

def RecordsNoFinal : Call → Prop
  | .updateQueueEntry _ entry => entry.final = false
  | _ => True

instance (c : Call) : Decidable (RecordsNoFinal c) := by
  apply @Call.casesOn (fun c => Decidable (RecordsNoFinal c)) c
  case updateQueueEntry => exact fun _ _ => inferInstanceAs (Decidable (_ = false))
  all_goals
    intros
    exact isTrue trivial

section Steps

variable {setup : Setup} {w w' : World sig State} {thread : Nat} {c : Call} {choice : Choice}
  {result : c.Result}

-- A finished entry is only ever made by writing it back.
theorem NoFinal.exec (hw : NoFinal w.state.rows) (hok : RecordsNoFinal c)
    (h : w.exec (machine setup) thread c choice = some (result, w'))
    (hproper : Proper (ownLog thread w.log) c) : NoFinal w'.state.rows := by
  intro id entry hrow
  cases exec_origin (exec_state h) hrow with
  | kept hold => exact hw id entry hold
  | stored =>
    have hpending : entry.status = .pending := hproper.2
    simp [QueueEntry.final, hpending]
  | updated _ => exact hok
  | claimed _ _ => rfl
  | requeued _ _ => rfl

end Steps

theorem noFinal_of_recordsNoFinal {setup : Setup} {tasks : List Task} {cfg : Config sig State Outcome}
    (hrun : Run (machine setup) (fun _ _ c _ => RecordsNoFinal c) (begin setup tasks) cfg) :
    NoFinal cfg.world.state.rows :=
  run_invariant hrun (fun w => NoFinal w.state.rows)
    (fun _ _ _ _ _ _ hok h hproper hw => hw.exec hok h hproper) fun id entry hrow => by
      rw [show (State.empty.rows)[id]? = none from Std.ExtTreeMap.getElem?_empty] at hrow
      cases hrow

-- The limit counts live entries, whatever it is, exactly where no row is
-- finished, and none ever is in a run that writes none back. One limit does
-- also where there are fewer rows in all.
theorem limit_counts_live (rows : QueueRows) (setup : Setup) (tasks : List Task)
    (cfg : Config sig State Outcome) :
    ((∀ maxSize, CountsLive maxSize rows) ↔ NoFinal rows) ∧
      (∀ maxSize, CountsLive maxSize rows ↔ rows.size < maxSize ∨ maxSize ≤ liveRows rows) ∧
      (Run (machine setup) (fun _ _ c _ => RecordsNoFinal c) (begin setup tasks) cfg →
        CountsLive setup.maxQueueSize cfg.world.state.rows) := by
  refine ⟨countsLive_every_iff, fun maxSize => ?_, fun hrun =>
    countsLive_every_iff.mpr (noFinal_of_recordsNoFinal hrun) setup.maxQueueSize⟩
  rw [countsLive_iff]
  omega

-- The remote server cannot be reached, and the message stays in the queue.
theorem limit_counts_live_retried :
    ∃ cfg, Run (machine oneRoom) (fun _ _ c _ => RecordsNoFinal c) (begin oneRoom oneMessage) cfg ∧
      cfg.pool.all Program.isDone = true ∧ CountsLive 1 cfg.world.state.rows := by
  have hrun : ((begin oneRoom oneMessage).replay (machine oneRoom) (fun _ _ c _ => RecordsNoFinal c)
      (List.replicate 5 (0, choiceAt 0) ++
        List.replicate 13 (1, ⟨false, 1, 5 * minute, .temporary []⟩))).any (fun cfg =>
        cfg.pool.all Program.isDone) = true := by
    decide
  obtain ⟨cfg, hcfg, hdone⟩ := (Option.any_eq_true _ _).mp hrun
  have hlimit := limit_counts_live cfg.world.state.rows oneRoom oneMessage cfg
  exact ⟨cfg, Run.of_replay hcfg, hdone, hlimit.2.2 (Run.of_replay hcfg)⟩

end UMail.Queue
