import UMail.Concurrency.RelyGuarantee

namespace Concurrency

variable {S : Signature} {State Choice α β : Type} {thread : Nat}

def ownLog (thread : Nat) (log : List (Event S)) : List (Event S) :=
  log.filter fun event => event.thread == thread

theorem exists_event_of_ownLog {log : List (Event S)} (h : ownLog thread log ≠ []) :
    ∃ event ∈ log, event.thread = thread := by
  obtain ⟨event, hevent⟩ := List.exists_mem_of_ne_nil _ h
  obtain ⟨hlog, hthread⟩ := List.mem_filter.mp hevent
  exact ⟨event, hlog, eq_of_beq hthread⟩

section Steps

variable {m : Machine S State Choice} {w w' : World S State} {thread other : Nat} {c : S.Call}
  {choice : Choice} {result : S.Result c}

theorem ownLog_exec (h : w.exec m thread c choice = some (result, w')) :
    ownLog thread w'.log = ⟨thread, c, result⟩ :: ownLog thread w.log := by
  rw [(World.exec_eq_some.mp h).2]
  simp [ownLog]

theorem ownLog_exec_other (h : w.exec m thread c choice = some (result, w'))
    (hne : other ≠ thread) : ownLog other w'.log = ownLog other w.log := by
  rw [(World.exec_eq_some.mp h).2]
  simp [ownLog, Ne.symm hne]

end Steps

-- Facts about what each thread has done itself. No other thread can touch them.
def historyDiscipline (m : Machine S State Choice)
    (ok : World S State → Nat → S.Call → Choice → Prop) (good : Nat → List (Event S) → Prop) :
    Discipline m where
  ok := ok
  inv w := ∀ thread, good thread (ownLog thread w.log)
  rely thread w w' := ownLog thread w'.log = ownLog thread w.log
  guar thread w w' := ∀ other, other ≠ thread → ownLog other w'.log = ownLog other w.log
  rely_refl _ _ := rfl
  rely_trans _ _ _ _ h h' := h'.trans h
  guar_rely hne _ _ hguar := hguar _ (Ne.symm hne)

-- A thread whose calls so far satisfy `pre` goes on so that they stay `good`.
def Acts (m : Machine S State Choice) (ok : World S State → Nat → S.Call → Choice → Prop)
    (good : Nat → List (Event S) → Prop) (thread : Nat) (pre : List (Event S) → Prop)
    (program : Program S α) (post : α → List (Event S) → Prop) : Prop :=
  (historyDiscipline m ok good).Guards thread (fun w => pre (ownLog thread w.log)) program
    fun value w => post value (ownLog thread w.log)

namespace Acts

variable {m : Machine S State Choice} {ok : World S State → Nat → S.Call → Choice → Prop}
  {good : Nat → List (Event S) → Prop} {thread : Nat} {pre : List (Event S) → Prop}
  {post : α → List (Event S) → Prop}

theorem done {value : α} (h : ∀ own, pre own → post value own) :
    Acts m ok good thread pre (pure value) post := fun _ hw => h _ hw

theorem skip {value : α} : Acts m ok good thread pre (pure value) fun _ => pre := done fun _ h => h

theorem bind {program : Program S β} {rest : β → Program S α} (middle : β → List (Event S) → Prop)
    (hprogram : Acts m ok good thread pre program middle)
    (hrest : ∀ value, Acts m ok good thread (middle value) (rest value) post) :
    Acts m ok good thread pre (program >>= rest) post :=
  Discipline.Guards.bind _ hprogram hrest

-- The thread sees the world its call starts from, and its own calls before.
theorem perform_bind {c : S.Call} {rest : S.Result c → Program S α}
    (middle : S.Result c → List (Event S) → Prop)
    (hcall : ∀ w choice result w', ok w thread c choice →
      w.exec m thread c choice = some (result, w') → good thread (ownLog thread w.log) →
      pre (ownLog thread w.log) → good thread (⟨thread, c, result⟩ :: ownLog thread w.log) ∧
        middle result (⟨thread, c, result⟩ :: ownLog thread w.log))
    (hrest : ∀ result, Acts m ok good thread (middle result) (rest result) post) :
    Acts m ok good thread pre (Program.perform c >>= rest) post := by
  refine Discipline.Guards.perform_bind ?_ (fun result w => middle result (ownLog thread w.log)) ?_
    hrest
  · intro w w' hrely hpre
    rw [show ownLog thread w'.log = ownLog thread w.log from hrely]
    exact hpre
  · intro w choice result w' hinv hok hexec hpre
    obtain ⟨hgood, hmiddle⟩ := hcall w choice result w' hok hexec (hinv thread) hpre
    rw [← ownLog_exec hexec] at hgood hmiddle
    refine ⟨fun other => ?_, fun other hne => ownLog_exec_other hexec hne, hmiddle⟩
    by_cases he : other = thread
    · rw [he]
      exact hgood
    · rw [ownLog_exec_other hexec he]
      exact hinv other

variable {program : Program S α}

theorem entails (pre' : List (Event S) → Prop) (hpre : ∀ own, pre own → pre' own)
    (h : Acts m ok good thread pre' program post) :
    Acts m ok good thread pre program post := fun w hw => h w (hpre _ hw)

theorem weaken {post' : α → List (Event S) → Prop} (h : Acts m ok good thread pre program post)
    (hpost : ∀ value own, post value own → post' value own) : Acts m ok good thread pre program post' :=
  Discipline.Guards.weaken h fun value _ => hpost value _

-- What the calls so far amount to can be kept in mind.
theorem remember {X : Type} (f : List (Event S) → X)
    (h : ∀ x, Acts m ok good thread (fun own => pre own ∧ f own = x) program post) :
    Acts m ok good thread pre program post := fun w hw => h _ w ⟨hw, rfl⟩

theorem assuming {fact : Prop} (h : fact → Acts m ok good thread pre program post) :
    Acts m ok good thread (fun own => pre own ∧ fact) program post := fun w hw => h hw.2 w hw.1

-- What no further call can undo is carried through.
theorem carry {kept : List (Event S) → Prop} (hkept : ∀ event own, kept own → kept (event :: own))
    (h : Acts m ok good thread pre program post) :
    Acts m ok good thread (fun own => pre own ∧ kept own) program
      fun value own => post value own ∧ kept own := by
  intro w hw
  obtain ⟨hpre, hkeep⟩ := hw
  have hwp := h w hpre
  clear h hpre
  induction program generalizing w with
  | done value => exact ⟨hwp, hkeep⟩
  | call c next ih =>
    intro w₁ hrely hinv choice result w₂ hok hexec
    obtain ⟨hinv', hguar, hrest⟩ := hwp w₁ hrely hinv choice result w₂ hok hexec
    refine ⟨hinv', hguar, ih result w₂ ?_ hrest⟩
    rw [ownLog_exec hexec, show ownLog thread w₁.log = ownLog thread w.log from hrely]
    exact hkept _ _ hkeep

-- A program is followed through its calls alone when each of them keeps what
-- is known.
theorem of_calls {allowed : S.Call → Prop} (hcalls : program.Calls allowed)
    (hkeep : ∀ c result own, allowed c → good thread own → pre own →
      good thread (⟨thread, c, result⟩ :: own) ∧ pre (⟨thread, c, result⟩ :: own)) :
    Acts m ok good thread pre program fun _ => pre := by
  induction program with
  | done value => exact skip
  | call c next ih =>
    exact perform_bind (fun _ => pre)
      (fun _ _ result _ _ _ hgood hpre => hkeep c result _ hcalls.1 hgood hpre)
      fun result => ih result (hcalls.2 result)

end Acts

variable {start cfg : Config S State α} {m : Machine S State Choice}
  {ok : World S State → Nat → S.Call → Choice → Prop} (hrun : Run m ok start cfg)
  (good : Nat → List (Event S) → Prop) (hstart : ∀ thread, good thread (ownLog thread start.world.log))

include hrun hstart

-- In every interleaving each thread has acted well.
theorem Run.acts
    (hpool : ∀ (i : Nat) program, start.pool[i]? = some program →
      Acts m ok good i (· = ownLog i start.world.log) program fun _ _ => True) (thread : Nat) :
    good thread (ownLog thread cfg.world.log) :=
  (historyDiscipline m ok good).run_inv hrun hstart (fun i program hi => hpool i program hi _ rfl)
    thread

-- What every step keeps, given that its thread acts well before and after it,
-- holds throughout a run.
theorem Run.invariant_acts
    (hpool : ∀ (i : Nat) program, start.pool[i]? = some program →
      Acts m ok good i (· = ownLog i start.world.log) program fun _ _ => True)
    (inv : World S State → Prop) (hstep : ∀ w thread c choice result w', ok w thread c choice →
      w.exec m thread c choice = some (result, w') → good thread (ownLog thread w'.log) →
      inv w → inv w') (hinv : inv start.world) : inv cfg.world := by
  induction hrun with
  | start => exact hinv
  | step before hp hok hexec ih =>
    exact hstep _ _ _ _ _ _ hok hexec ((Run.step before hp hok hexec).acts good hstart hpool _) ih

-- A thread that is over has done what its program is for.
theorem Run.acts_done (post : Nat → α → List (Event S) → Prop)
    (hpool : ∀ (i : Nat) program, start.pool[i]? = some program →
      Acts m ok good i (· = ownLog i start.world.log) program (post i)) {value : α}
    (hdone : cfg.pool[thread]? = some (.done value)) :
    post thread value (ownLog thread cfg.world.log) := by
  have hsound := (historyDiscipline m ok good).run_sound
    (fun i value w => post i value (ownLog i w.log)) hrun hstart
    fun i program hi => hpool i program hi _ rfl
  obtain ⟨w, hrely, hpost⟩ := hsound.2 thread _ hdone
  rw [show ownLog thread cfg.world.log = ownLog thread w.log from hrely]
  exact hpost

end Concurrency
