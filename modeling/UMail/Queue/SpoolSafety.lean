import UMail.Queue.Rows

namespace UMail.Queue

open Concurrency UMail.Storage UMail.Db

def Deliverable (s : State) : Prop :=
  ∀ (id : EntryID) (entry : QueueEntry), s.rows[id]? = some entry →
    entry.status = .pending ∨ entry.status = .sending → id.base ∈ s.spool

-- References are counted over the whole queue and not while the message is
-- still being enqueued, a finished entry stays finished, and a rollback removes
-- what it is there to remove.
def KeepsFiles (w : World sig State) (thread : Nat) : Call → Choice → Prop
  | .countRefs base _, choice => choice.fault = false ∧ ¬ Unfinished w base
  | .updateQueueEntry id entry, _ =>
    (w.state.rows[id]?.any fun old => old.final && !entry.final) = false
  | .dequeue _, choice => (phaseOf w thread).storing.isSome → choice.fault = false
  | _, _ => True

instance (w : World sig State) (thread : Nat) (c : Call) (choice : Choice) :
    Decidable (KeepsFiles w thread c choice) := by
  apply @Call.casesOn (fun c => Decidable (KeepsFiles w thread c choice)) c
  case countRefs =>
    exact fun base _ => inferInstanceAs (Decidable (choice.fault = false ∧ ¬ Unfinished w base))
  case updateQueueEntry => exact fun _ _ => inferInstanceAs (Decidable (_ = false))
  case dequeue =>
    exact fun _ => inferInstanceAs (Decidable ((phaseOf w thread).storing.isSome → choice.fault = false))
  all_goals
    intros
    exact isTrue trivial

def twoRecipients : List Task :=
  [.enqueueWithDSN (bytes "s@a") [.plain (bytes "r@b"), .plain (bytes "q@b")] (bytes "m"),
    .sweep 1, .worker 1]

def servedEarly : List (Nat × Choice) :=
  List.replicate 4 (0, choiceAt 0) ++ List.replicate 6 (1, choiceAt 1) ++
    List.replicate 16 (2, choiceAt 1) ++ [(0, choiceAt 2)]

theorem deliverable_fails_served_early :
    ¬ ∀ (setup : Setup) (tasks : List Task) (cfg : Config sig State Outcome),
      Run (machine setup) (fun _ _ _ choice => choice.fault = false) (begin setup tasks) cfg →
        Deliverable cfg.world.state := by
  intro h
  have hrun : ((begin plainSetup twoRecipients).replay (machine plainSetup)
      (fun _ _ _ choice => choice.fault = false) servedEarly).any (fun cfg =>
        cfg.world.state.rows[EntryID.mk 0 1]?.any (fun entry => entry.status = .pending) &&
        !cfg.world.state.spool.contains 0) = true := by
    decide
  obtain ⟨cfg, hcfg, hfacts⟩ := (Option.any_eq_true _ _).mp hrun
  simp only [Bool.and_eq_true, Option.any_eq_true, decide_eq_true_eq, Bool.not_eq_true'] at hfacts
  obtain ⟨⟨entry, hrow, hpending⟩, hgone⟩ := hfacts
  have hin := h plainSetup twoRecipients cfg (Run.of_replay hcfg) _ entry hrow (.inl hpending)
  rw [← Std.ExtTreeMap.contains_iff_mem, hgone] at hin
  cases hin

def Passed (reach : Option EntryID) (id : EntryID) : Prop :=
  ∀ key ∈ reach, compare key id ≠ .lt

structure Spooled (w : World sig State) : Prop where
  tidy : Tidy w
  files : ∀ (id : EntryID) (entry : QueueEntry), w.state.rows[id]? = some entry →
    entry.final = false → id.base ∈ w.state.spool
  written : ∀ thread base stored, phaseOf w thread = .spooling base stored true →
    base ∈ w.state.spool
  undone : UndoneBelow w
  scanned : ∀ thread base reach, phaseOf w thread = .scanning base reach → Closed w base ∧
    ∀ (index : Nat) (entry : QueueEntry), w.state.rows[EntryID.mk base index]? = some entry →
      Passed reach ⟨base, index⟩ → entry.final = true

section Steps

variable {setup : Setup} {w w' : World sig State} {thread : Nat} {c : Call} {choice : Choice}
  {result : c.Result} {entry : QueueEntry}

theorem spool_exec {s s' : State} {base : Nat}
    (h : exec setup thread choice s c = some (result, s')) (hbase : base ∈ s.spool) :
    base ∈ s'.spool ∨ c = .deleteFile base ∨ c = .removeMessage base := by
  have herase : ∀ removed, base ∈ (s.deleteSpool choice removed).spool ∨ removed = base := by
    intro removed
    unfold State.deleteSpool
    split_ifs
    · exact .inl hbase
    by_cases he : removed = base
    · exact .inr he
    · refine .inl (Std.ExtTreeMap.mem_erase.mpr ⟨?_, hbase⟩)
      rwa [ne_eq, Nat.compare_eq_eq]
  cases c
  case writeSpool other message =>
    simp only [exec] at h
    split_ifs at h <;> cases h
    · exact .inl hbase
    · exact .inl (Std.ExtTreeMap.mem_insert.mpr (.inr hbase))
  case deleteFile removed =>
    cases h
    rcases herase removed with hin | rfl
    · exact .inl hin
    · exact .inr (.inl rfl)
  case removeMessage removed =>
    cases h
    rcases herase removed with hin | rfl
    · exact .inl hin
    · exact .inr (.inr rfl)
  all_goals exact .inl ((exec_frame h).spool rfl ▸ hbase)

-- One page more of a walk: a row of the message up to the new end was passed
-- before, or it is on the page and finished.
theorem final_of_countPage {rows : QueueRows} {base index : Nat} {after : Option EntryID}
    (hrow : rows[EntryID.mk base index]? = some entry)
    (hcount : countPage base (pageAfter rows after) = 0)
    (hpassed : Passed (nextPage (pageAfter rows after)) ⟨base, index⟩)
    (hbefore : ∀ key ∈ after, compare key ⟨base, index⟩ ≠ .lt → entry.final = true) :
    entry.final = true := by
  by_cases hafter : ∀ key ∈ after, compare key ⟨base, index⟩ = .lt
  · rcases mem_pageAfter hrow hafter with hpage | ⟨last, hlast, hlt⟩
    · by_contra hf
      rw [countPage, List.length_eq_zero_iff, List.filter_eq_nil_iff] at hcount
      exact hcount _ hpage (by simpa using hf)
    · exact absurd hlt (hpassed last hlast)
  · push Not at hafter
    obtain ⟨key, hkey, hne⟩ := hafter
    exact hbefore key hkey hne

variable (h : w.exec (machine setup) thread c choice = some (result, w'))
include h

theorem row_exec {id : EntryID} (hok : KeepsFiles w thread c choice)
    (hrow : w'.state.rows[id]? = some entry) :
    (∃ old, w.state.rows[id]? = some old ∧ (old.final = true → entry.final = true)) ∨
      c = .enqueueWithLimit id entry := by
  cases exec_origin (exec_state h) hrow with
  | kept hold => exact .inl ⟨entry, hold, fun hf => hf⟩
  | stored => exact .inr rfl
  | updated hold =>
    refine .inl ⟨_, hold, fun hf => ?_⟩
    have hany : (w.state.rows[id]?.any fun old => old.final && !entry.final) = false := hok
    rw [hold] at hany
    simpa [hf] using hany
  | claimed hold hpending =>
    refine .inl ⟨_, hold, fun hf => ?_⟩
    simp [QueueEntry.final, hpending] at hf
  | requeued hold hstale =>
    refine .inl ⟨_, hold, fun hf => ?_⟩
    simp only [staleClaim, Bool.and_eq_true, decide_eq_true_eq] at hstale
    simp [QueueEntry.final, hstale.1] at hf

namespace Spooled

variable (hs : Spooled w) (hproper : Proper (ownLog thread w.log) c)
include hs hproper

theorem written_exec (other base stored : Nat)
    (hphase : phaseOf w' other = .spooling base stored true) : base ∈ w'.state.spool := by
  -- A message that some thread still stores is neither taken back nor removed.
  have hkeep : ∀ before, phaseOf w other = .spooling base before true → base ∈ w'.state.spool := by
    intro before hbefore
    have hstoring : (phaseOf w other).storing = some (base, before) := by rw [hbefore]; rfl
    rcases spool_exec (exec_state h) (hs.written other base before hbefore) with hin | rfl | rfl
    · exact hin
    · obtain ⟨count, hundo⟩ := hproper
      change phaseOf w thread = _ at hundo
      obtain rfl := hs.tidy.alone thread other base count before (by rw [hundo]; rfl) hstoring
      rw [hundo] at hbefore
      cases hbefore
    · exact absurd hstoring ((hs.scanned thread base none hproper).1.2 other before)
  rcases phaseOf_entered h other with hsame | ⟨rfl, hentered⟩
  · exact hkeep stored (hsame ▸ hphase)
  rw [hphase] at hentered
  generalize hbefore : phaseOf w other = before at hentered
  cases hentered with
  | kept => exact hkeep stored hbefore
  | written =>
    have hstate := exec_state h
    simp only [exec] at hstate
    split_ifs at hstate <;> obtain ⟨hok, hstate⟩ := Prod.mk.inj (Option.some.inj hstate)
    · cases hok
    rw [← hstate]
    exact Std.ExtTreeMap.mem_insert.mpr (.inl (Nat.compare_eq_eq.mpr rfl))
  | @stored id => exact hkeep id.index hproper.1

variable (hok : KeepsFiles w thread c choice)
include hok

-- A message is removed only when no entry needs it any more.
theorem files_exec (id : EntryID) (entry : QueueEntry)
    (hrow : w'.state.rows[id]? = some entry) (hfinal : entry.final = false) :
    id.base ∈ w'.state.spool := by
  rcases row_exec h hok hrow with ⟨old, hold, hmono⟩ | rfl
  · have hopen : old.final = false := by
      by_contra hf
      rw [hmono (by simpa using hf)] at hfinal
      cases hfinal
    rcases spool_exec (exec_state h) (hs.files id old hold hopen) with hin | rfl | rfl
    · exact hin
    · obtain ⟨stored, hphase⟩ := hproper
      have hlt := (hs.tidy.rows id old hold).2 thread stored (by unfold phaseOf; rw [hphase]; rfl)
      have hle := hs.undone thread id.base stored stored hphase id.index old hold
      omega
    · have hscan := (hs.scanned thread id.base none hproper).2 id.index old hold
        (fun _ hkey => by cases hkey)
      rw [hscan] at hopen
      cases hopen
  · rw [(exec_frame (exec_state h)).spool rfl]
    exact hs.written thread id.base id.index hproper.1

theorem scanned_exec (other base : Nat) (reach : Option EntryID)
    (hphase : phaseOf w' other = .scanning base reach) : Closed w' base ∧
      ∀ (index : Nat) (entry : QueueEntry), w'.state.rows[EntryID.mk base index]? = some entry →
        Passed reach ⟨base, index⟩ → entry.final = true := by
  have hkeep : phaseOf w other = .scanning base reach → Closed w' base ∧
      ∀ (index : Nat) (entry : QueueEntry), w'.state.rows[EntryID.mk base index]? = some entry →
        Passed reach ⟨base, index⟩ → entry.final = true := by
    intro hbefore
    obtain ⟨hclosed, hrows⟩ := hs.scanned other base reach hbefore
    refine ⟨hclosed.exec h hproper, ?_⟩
    intro index entry hrow hpassed
    rcases row_exec h hok hrow with ⟨old, hold, hmono⟩ | rfl
    · exact hmono (hrows index old hold hpassed)
    · have hspool : phaseOf w thread = .spooling base index true := hproper.1
      exact absurd (by rw [hspool]; rfl) (hclosed.2 thread index)
  rcases phaseOf_entered h other with hsame | ⟨rfl, hentered⟩
  · exact hkeep (hsame ▸ hphase)
  rw [hphase] at hentered
  generalize hbefore : phaseOf w other = before at hentered
  cases hentered with
  | kept => exact hkeep hbefore
  | @scanned _ after result _ hon hresult =>
    obtain ⟨hfault, hunfinished⟩ : choice.fault = false ∧ ¬ Unfinished w base := hok
    have hstate := exec_state h
    simp only [exec, State.page, hfault, Bool.false_eq_true, if_false, Option.some.injEq,
      Prod.mk.injEq] at hstate
    obtain ⟨hpage, hsame⟩ := hstate
    rcases hresult with rfl | ⟨err, rfl⟩
    · simp only [Except.ok.injEq, Prod.mk.injEq] at hpage
      obtain ⟨hcount, rfl⟩ := hpage
      have hclosed : Closed w base :=
        ⟨hs.tidy.seen other base hproper, storing_of_unfinished hunfinished⟩
      refine ⟨hclosed.exec h hproper, ?_⟩
      intro index entry hrow hpassed
      rw [← hsame] at hrow
      refine final_of_countPage hrow hcount hpassed ?_
      intro key hkey hne
      rcases hon with rfl | rfl
      · cases hkey
      · refine (hs.scanned other base after hbefore).2 index entry hrow ?_
        intro key' hkey'
        rwa [Option.mem_unique hkey' hkey]
    · cases hpage

theorem exec : Spooled w' where
  tidy := hs.tidy.exec h hproper
  files := hs.files_exec h hproper hok
  written := hs.written_exec h hproper
  undone := by
    refine hs.undone.exec h hproper hs.tidy ?_
    rintro id rfl
    exact hok
  scanned := hs.scanned_exec h hproper hok

end Spooled

end Steps

theorem spooled_empty : Spooled ⟨State.empty, []⟩ where
  tidy := tidy_empty
  files id entry h := by
    cases h
  written _ _ _ h := by cases h
  undone _ _ _ _ h := by cases h
  scanned _ _ _ h := by cases h

theorem deliverable_of_keepsFiles {setup : Setup} {tasks : List Task}
    {cfg : Config sig State Outcome}
    (hrun : Run (machine setup) KeepsFiles (begin setup tasks) cfg) :
    Deliverable cfg.world.state := by
  have hspooled : Spooled cfg.world :=
    run_invariant hrun Spooled (fun _ _ _ _ _ _ hok h hproper hs => hs.exec h hproper hok)
      spooled_empty
  intro id entry hrow hopen
  refine hspooled.files id entry hrow ?_
  rcases hopen with hp | hp <;> simp [QueueEntry.final, hp]

-- The worker serves the first recipient when the call is over, and the second
-- one still has its message.
theorem deliverable_after_enqueue :
    ∃ cfg, Run (machine plainSetup) KeepsFiles (begin plainSetup twoRecipients) cfg ∧
      cfg.world.state.rows[EntryID.mk 0 0]?.any (fun entry => entry.status = .delivered) ∧
      cfg.world.state.rows[EntryID.mk 0 1]?.any (fun entry => entry.status = .pending) ∧
      Deliverable cfg.world.state := by
  have hrun : ((begin plainSetup twoRecipients).replay (machine plainSetup) KeepsFiles
      (List.replicate 7 (0, choiceAt 0) ++ List.replicate 15 (2, choiceAt 1))).any (fun cfg =>
        cfg.world.state.rows[EntryID.mk 0 0]?.any (fun entry => entry.status = .delivered) &&
        cfg.world.state.rows[EntryID.mk 0 1]?.any (fun entry => entry.status = .pending)) = true := by
    decide
  obtain ⟨cfg, hcfg, hfacts⟩ := (Option.any_eq_true _ _).mp hrun
  obtain ⟨hserved, hwaiting⟩ := Bool.and_eq_true_iff.mp hfacts
  exact ⟨cfg, Run.of_replay hcfg, hserved, hwaiting,
    deliverable_of_keepsFiles (Run.of_replay hcfg)⟩

end UMail.Queue
