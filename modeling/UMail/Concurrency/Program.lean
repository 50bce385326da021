import Mathlib.Logic.Basic
import Mathlib.Data.List.Basic

namespace Concurrency

-- The atomic calls a component can make, and what each of them returns.
structure Signature where
  Call : Type
  Result : Call → Type

-- A program is the tree of its atomic calls. Whatever happens between two
-- calls is local to the thread, so other threads can only run at the calls.
inductive Program (S : Signature) (α : Type) : Type
  | done (value : α)
  | call (c : S.Call) (next : S.Result c → Program S α)

variable {S : Signature} {α β : Type}

namespace Program

variable {allowed : S.Call → Prop} {c : S.Call}

def bind : Program S α → (α → Program S β) → Program S β
  | done value, rest => rest value
  | call c next, rest => call c fun result => bind (next result) rest

def perform (c : S.Call) : Program S (S.Result c) :=
  call c done

instance : Monad (Program S) where
  pure := done
  bind := bind

@[simp] theorem done_bind (value : α) (rest : α → Program S β) :
    (done value >>= rest) = rest value := rfl

@[simp] theorem call_bind (c : S.Call) (next : S.Result c → Program S α)
    (rest : α → Program S β) :
    (call c next >>= rest) = call c fun result => next result >>= rest := rfl

@[simp] theorem perform_bind (c : S.Call) (rest : S.Result c → Program S β) :
    (perform c >>= rest) = call c rest := rfl

def isDone : Program S α → Bool
  | done _ => true
  | call _ _ => false

theorem eq_done_of_isDone {program : Program S Unit} (h : program.isDone = true) :
    program = done () := by
  cases program with
  | done value => rfl
  | call c next => cases h

-- Every call the program can ever make, on any results, satisfies `allowed`.
def Calls (allowed : S.Call → Prop) : Program S α → Prop
  | done _ => True
  | call c next => allowed c ∧ ∀ result, Calls allowed (next result)

theorem calls_true (program : Program S α) : program.Calls fun _ => True := by
  induction program with
  | done value => trivial
  | call c next ih => exact ⟨trivial, ih⟩

theorem Calls.next {rest : S.Result c → Program S β} (hc : allowed c)
    (hr : ∀ result, (rest result).Calls allowed) : (perform c >>= rest).Calls allowed :=
  ⟨hc, hr⟩

theorem Calls.perform (hc : allowed c) :
    (Program.perform c).Calls allowed := ⟨hc, fun _ => trivial⟩

theorem Calls.bind {program : Program S α} {rest : α → Program S β} (hp : program.Calls allowed)
    (hr : ∀ value, (rest value).Calls allowed) : (program >>= rest).Calls allowed := by
  induction program with
  | done value => exact hr value
  | call c next ih => exact ⟨hp.1, fun result => ih result (hp.2 result)⟩

end Program

-- What a call does to the shared state. The choice stands for everything the
-- environment decides: faults, clock readings, random values. No result means
-- that the call is blocked in this state.
structure Machine (S : Signature) (State Choice : Type) where
  exec : Nat → (c : S.Call) → Choice → State → Option (S.Result c × State)

structure Event (S : Signature) where
  thread : Nat
  call : S.Call
  result : S.Result call

structure World (S : Signature) (State : Type) where
  state : State
  log : List (Event S)

variable {State Choice : Type} {thread : Nat} {choice : Choice}

def World.exec (m : Machine S State Choice) (w : World S State) (thread : Nat)
    (c : S.Call) (choice : Choice) : Option (S.Result c × World S State) :=
  (m.exec thread c choice w.state).map fun out =>
    (out.1, ⟨out.2, ⟨thread, c, out.1⟩ :: w.log⟩)

theorem World.exec_eq_some {m : Machine S State Choice} {w w' : World S State}
    {c : S.Call} {result : S.Result c} :
    w.exec m thread c choice = some (result, w') ↔
      m.exec thread c choice w.state = some (result, w'.state) ∧
        w'.log = ⟨thread, c, result⟩ :: w.log := by
  simp only [World.exec, Option.map_eq_some_iff, Prod.mk.injEq]
  constructor
  · rintro ⟨⟨r, s⟩, he, rfl, rfl⟩
    exact ⟨he, rfl⟩
  · rintro ⟨he, hl⟩
    refine ⟨(result, w'.state), he, rfl, ?_⟩
    cases w'
    simp only at hl
    rw [hl]

structure Config (S : Signature) (State α : Type) where
  world : World S State
  pool : List (Program S α)

section Replay

variable (m : Machine S State Choice) (ok : World S State → Nat → S.Call → Choice → Prop)
  [∀ w thread c choice, Decidable (ok w thread c choice)]

-- The next call of one thread, when it is `ok` and not blocked.
def Config.step (cfg : Config S State α) (thread : Nat) (choice : Choice) :
    Option (Config S State α) :=
  match cfg.pool[thread]? with
  | some (.call c next) =>
    if ok cfg.world thread c choice then
      (cfg.world.exec m thread c choice).map fun out =>
        ⟨out.2, cfg.pool.set thread (next out.1)⟩
    else none
  | _ => none

def Config.replay (cfg : Config S State α) : List (Nat × Choice) → Option (Config S State α)
  | [] => some cfg
  | (thread, choice) :: rest => (cfg.step m ok thread choice).bind fun next => next.replay rest

-- Runs a program alone, taking one choice of the list for each call.
def Program.execWith (thread : Nat) :
    Program S α → World S State → List Choice → Option (α × World S State)
  | .done value, w, _ => some (value, w)
  | .call _ _, _, [] => none
  | .call c next, w, choice :: rest =>
    if ok w thread c choice then
      (w.exec m thread c choice).bind fun out => (next out.1).execWith thread out.2 rest
    else none

end Replay

-- All configurations some interleaving reaches, every step of which is `ok`
-- in the world it starts from.
inductive Run (m : Machine S State Choice) (ok : World S State → Nat → S.Call → Choice → Prop)
    (start : Config S State α) : Config S State α → Prop
  | start : Run m ok start start
  | step {cfg : Config S State α} {thread : Nat} {c : S.Call}
      {next : S.Result c → Program S α} {choice : Choice} {result : S.Result c}
      {w : World S State} (before : Run m ok start cfg)
      (hpool : cfg.pool[thread]? = some (.call c next)) (hok : ok cfg.world thread c choice)
      (hexec : cfg.world.exec m thread c choice = some (result, w)) :
      Run m ok start ⟨w, cfg.pool.set thread (next result)⟩

theorem Run.trans {m : Machine S State Choice}
    {ok : World S State → Nat → S.Call → Choice → Prop} {start middle cfg : Config S State α}
    (before : Run m ok start middle) (after : Run m ok middle cfg) : Run m ok start cfg := by
  induction after with
  | start => exact before
  | step _ hpool hok hexec ih => exact .step ih hpool hok hexec

def Config.StepsTo (m : Machine S State Choice)
    (ok : World S State → Nat → S.Call → Choice → Prop) (cfg cfg' : Config S State α) : Prop :=
  ∃ thread c next choice result w, cfg.pool[thread]? = some (.call c next) ∧
    ok cfg.world thread c choice ∧ cfg.world.exec m thread c choice = some (result, w) ∧
    cfg' = ⟨w, cfg.pool.set thread (next result)⟩

theorem Config.stepsTo_of_step {m : Machine S State Choice}
    {ok : World S State → Nat → S.Call → Choice → Prop}
    [∀ w thread c choice, Decidable (ok w thread c choice)] {cfg cfg' : Config S State α}
    (h : cfg.step m ok thread choice = some cfg') :
    cfg.StepsTo m ok cfg' := by
  unfold Config.step at h
  split at h
  · rename_i c next hp
    split_ifs at h with hok
    obtain ⟨⟨result, w⟩, he, rfl⟩ := Option.map_eq_some_iff.mp h
    exact ⟨thread, c, next, choice, result, w, hp, hok, he, rfl⟩
  · cases h

inductive Exec (m : Machine S State Choice) (ok : World S State → Nat → S.Call → Choice → Prop)
    (thread : Nat) : Program S α → World S State → α → World S State → Prop
  | done (value : α) (w : World S State) : Exec m ok thread (.done value) w value w
  | call {c : S.Call} {next : S.Result c → Program S α} {choice : Choice}
      {result : S.Result c} {w w₁ w₂ : World S State} {value : α}
      (hok : ok w thread c choice) (hexec : w.exec m thread c choice = some (result, w₁))
      (rest : Exec m ok thread (next result) w₁ value w₂) :
      Exec m ok thread (.call c next) w value w₂

end Concurrency
