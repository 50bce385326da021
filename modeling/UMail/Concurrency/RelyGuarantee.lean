import UMail.Concurrency.Program

namespace Concurrency

variable {S : Signature} {State Choice α β : Type}

-- What every thread may assume of the others and has to keep to itself. The
-- invariant holds between any two calls. What one thread guarantees at a step
-- is what every other thread relies on.
structure Discipline (m : Machine S State Choice) where
  ok : World S State → Nat → S.Call → Choice → Prop
  inv : World S State → Prop
  rely : Nat → World S State → World S State → Prop
  guar : Nat → World S State → World S State → Prop
  rely_refl : ∀ thread w, rely thread w w
  rely_trans : ∀ thread {a b c}, rely thread a b → rely thread b c → rely thread a c
  guar_rely : ∀ {thread other w w'}, thread ≠ other → inv w → inv w' → guar thread w w' →
    rely other w w'

namespace Discipline

variable {m : Machine S State Choice}
  {thread : Nat} {program : Program S α} {w : World S State} {cfg : Config S State α}

-- From this world the thread keeps the invariant and its guarantee at each of
-- its calls, with the others acting before every call, and ends in `post`.
def wp (d : Discipline m) (thread : Nat) :
    Program S α → (α → World S State → Prop) → World S State → Prop
  | .done value, post, w => post value w
  | .call c next, post, w => ∀ w₁, d.rely thread w w₁ → d.inv w₁ →
      ∀ choice result w₂, d.ok w₁ thread c choice →
        w₁.exec m thread c choice = some (result, w₂) →
        d.inv w₂ ∧ d.guar thread w₁ w₂ ∧ d.wp thread (next result) post w₂

theorem wp_mono (d : Discipline m) {post post' : α → World S State → Prop}
    (hpost : ∀ value w, post value w → post' value w) (hw : d.wp thread program post w) :
    d.wp thread program post' w := by
  induction program generalizing w with
  | done value => exact hpost value w hw
  | call c next ih =>
    intro w₁ hr hi choice result w₂ hok hexec
    obtain ⟨hinv, hguar, hrest⟩ := hw w₁ hr hi choice result w₂ hok hexec
    exact ⟨hinv, hguar, ih result hrest⟩

theorem wp_bind (d : Discipline m) {rest : α → Program S β} {post : β → World S State → Prop}
    (hw : d.wp thread program (fun value w => d.wp thread (rest value) post w) w) :
    d.wp thread (program >>= rest) post w := by
  induction program generalizing w with
  | done value => exact hw
  | call c next ih =>
    intro w₁ hr hi choice result w₂ hok hexec
    obtain ⟨hinv, hguar, hrest⟩ := hw w₁ hr hi choice result w₂ hok hexec
    exact ⟨hinv, hguar, ih result hrest⟩

def Stable (d : Discipline m) (thread : Nat) (pre : World S State → Prop) : Prop :=
  ∀ w w', d.rely thread w w' → pre w → pre w'

-- A thread that starts where `pre` holds is safe and ends in `post`.
def Guards (d : Discipline m) (thread : Nat) (pre : World S State → Prop) (program : Program S α)
    (post : α → World S State → Prop) : Prop :=
  ∀ w, pre w → d.wp thread program post w

namespace Guards

variable {d : Discipline m} {thread : Nat} {pre : World S State → Prop}
  {post : α → World S State → Prop} {program : Program S α}

theorem done {value : α} (h : ∀ w, pre w → post value w) : d.Guards thread pre (pure value) post :=
  h

theorem skip {value : α} : d.Guards thread pre (pure value) fun _ => pre := done fun _ h => h

theorem bind {program : Program S β} {rest : β → Program S α} (middle : β → World S State → Prop)
    (hprogram : d.Guards thread pre program middle)
    (hrest : ∀ value, d.Guards thread (middle value) (rest value) post) :
    d.Guards thread pre (program >>= rest) post := fun w hw =>
  d.wp_bind (d.wp_mono (fun value w h => hrest value w h) (hprogram w hw))

theorem perform_bind {c : S.Call} {rest : S.Result c → Program S α} (hstable : d.Stable thread pre)
    (middle : S.Result c → World S State → Prop)
    (hcall : ∀ w choice result w', d.inv w → d.ok w thread c choice →
      w.exec m thread c choice = some (result, w') → pre w →
      d.inv w' ∧ d.guar thread w w' ∧ middle result w')
    (hrest : ∀ result, d.Guards thread (middle result) (rest result) post) :
    d.Guards thread pre (Program.perform c >>= rest) post := by
  intro w hw w₁ hrely hinv choice result w₂ hok hexec
  obtain ⟨hinv', hguar, hmiddle⟩ := hcall w₁ choice result w₂ hinv hok hexec (hstable w w₁ hrely hw)
  exact ⟨hinv', hguar, hrest result w₂ hmiddle⟩

theorem entails (pre' : World S State → Prop) (hpre : ∀ w, pre w → pre' w)
    (h : d.Guards thread pre' program post) : d.Guards thread pre program post :=
  fun w hw => h w (hpre w hw)

theorem weaken {post' : α → World S State → Prop}
    (h : d.Guards thread pre program post) (hpost : ∀ value w, post value w → post' value w) :
    d.Guards thread pre program post' := fun w hw => d.wp_mono hpost (h w hw)

end Guards

-- The state of one thread during a run: some earlier world from which its
-- remaining program is safe, and only the others have acted since.
def Holds (d : Discipline m) (thread : Nat) (program : Program S α)
    (post : α → World S State → Prop) (w : World S State) : Prop :=
  ∃ w₀, d.rely thread w₀ w ∧ d.wp thread program post w₀

theorem run_step (d : Discipline m) {post : Nat → α → World S State → Prop} {c : S.Call}
    {next : S.Result c → Program S α}
    {choice : Choice} {result : S.Result c}
    (hinv : d.inv cfg.world)
    (hpost : ∀ (i : Nat) program, cfg.pool[i]? = some program →
      d.Holds i program (post i) cfg.world)
    (hpool : cfg.pool[thread]? = some (.call c next)) (hok : d.ok cfg.world thread c choice)
    (hexec : cfg.world.exec m thread c choice = some (result, w)) :
    d.inv w ∧ ∀ (i : Nat) program, (cfg.pool.set thread (next result))[i]? = some program →
      d.Holds i program (post i) w := by
  obtain ⟨w₀, hr₀, hw₀⟩ := hpost thread _ hpool
  obtain ⟨hinv', hguar, hrest⟩ := hw₀ cfg.world hr₀ hinv choice result w hok hexec
  refine ⟨hinv', ?_⟩
  intro i program hi
  by_cases he : thread = i
  · subst i
    obtain ⟨hlt, hget⟩ := List.getElem?_eq_some_iff.mp hi
    rw [List.getElem_set_self] at hget
    exact ⟨w, d.rely_refl thread w, hget ▸ hrest⟩
  · rw [List.getElem?_set_ne he] at hi
    obtain ⟨w₁, hr₁, hw₁⟩ := hpost i program hi
    exact ⟨w₁, d.rely_trans i hr₁ (d.guar_rely he hinv hinv' hguar), hw₁⟩

-- The rule of parallel composition: threads that are safe alone, under what
-- they rely on, are safe together in every interleaving.
theorem run_sound (d : Discipline m) (post : Nat → α → World S State → Prop)
    {start : Config S State α} (hrun : Run m d.ok start cfg) (hinv : d.inv start.world)
    (hpool : ∀ (i : Nat) program, start.pool[i]? = some program →
      d.wp i program (post i) start.world) :
    d.inv cfg.world ∧ ∀ (i : Nat) program, cfg.pool[i]? = some program →
      d.Holds i program (post i) cfg.world := by
  induction hrun with
  | start => exact ⟨hinv, fun i program hi => ⟨_, d.rely_refl i _, hpool i program hi⟩⟩
  | step _ hp hok hexec ih => exact d.run_step ih.1 ih.2 hp hok hexec

theorem run_inv (d : Discipline m) {start : Config S State α}
    (hrun : Run m d.ok start cfg) (hinv : d.inv start.world)
    (hpool : ∀ (i : Nat) program, start.pool[i]? = some program →
      d.wp i program (fun _ _ => True) start.world) : d.inv cfg.world :=
  (d.run_sound (fun _ _ _ => True) hrun hinv hpool).1

end Discipline

-- A schedule that replays is an interleaving of steps that are all `ok`.
theorem Run.of_replay {m : Machine S State Choice}
    {ok : World S State → Nat → S.Call → Choice → Prop}
    [∀ w thread c choice, Decidable (ok w thread c choice)] {start cfg : Config S State α}
    {schedule : List (Nat × Choice)} (h : start.replay m ok schedule = some cfg) :
    Run m ok start cfg := by
  have hmain : ∀ middle, Run m ok start middle →
      middle.replay m ok schedule = some cfg → Run m ok start cfg := by
    clear h
    induction schedule with
    | nil =>
      intro middle hr h
      obtain rfl : middle = cfg := by simpa [Config.replay] using h
      exact hr
    | cons step rest ih =>
      intro middle hr h
      simp only [Config.replay, Option.bind_eq_some_iff] at h
      obtain ⟨next, hs, hn⟩ := h
      refine ih next ?_ hn
      obtain ⟨_, _, _, _, _, _, hp, hok, he, rfl⟩ := Config.stepsTo_of_step hs
      exact .step hr hp hok he
  exact hmain start .start h

section Calls

variable {m : Machine S State Choice} {ok : World S State → Nat → S.Call → Choice → Prop}
  {allowed : S.Call → Prop}

theorem Run.calls {start cfg : Config S State α} (hrun : Run m ok start cfg)
    (hstart : ∀ program ∈ start.pool, program.Calls allowed) :
    ∀ program ∈ cfg.pool, program.Calls allowed := by
  induction hrun with
  | start => exact hstart
  | step _ hpool _ _ ih =>
    intro program hp
    rcases List.mem_or_eq_of_mem_set hp with hold | rfl
    · exact ih program hold
    · exact (ih _ (List.mem_of_getElem? hpool)).2 _

-- What every allowed call keeps holds throughout a run of such threads.
theorem Run.invariant {start cfg : Config S State α} (hrun : Run m ok start cfg)
    (inv : World S State → Prop)
    (hstep : ∀ w thread c choice result w', allowed c → ok w thread c choice →
      w.exec m thread c choice = some (result, w') → inv w → inv w')
    (hstart : ∀ program ∈ start.pool, program.Calls allowed) (hinv : inv start.world) :
    inv cfg.world := by
  induction hrun with
  | start => exact hinv
  | step before hpool hok hexec ih =>
    exact hstep _ _ _ _ _ _ (before.calls hstart _ (List.mem_of_getElem? hpool)).1 hok hexec ih

end Calls

end Concurrency
