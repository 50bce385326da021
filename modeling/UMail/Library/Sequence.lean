import Mathlib.Logic.Basic
import Mathlib.Data.List.Basic

namespace Sequence

variable {State Op : Type} {apply : Op → State → State}

def run (apply : Op → State → State) (ops : List Op) (state : State) : State :=
  ops.foldl (fun state op => apply op state) state

@[simp] theorem run_nil (state : State) : run apply [] state = state := rfl

@[simp] theorem run_cons (op : Op) (ops : List Op) (state : State) :
    run apply (op :: ops) state = run apply ops (apply op state) := rfl

@[simp] theorem run_append (ops ops' : List Op) (state : State) :
    run apply (ops ++ ops') state = run apply ops' (run apply ops state) := List.foldl_append

-- Every operation of the sequence is good in the state it starts from.
def RunAll (apply : Op → State → State) (good : State → Op → Prop) : List Op → State → Prop
  | [], _ => True
  | op :: ops, state => good state op ∧ RunAll apply good ops (apply op state)

variable {good : State → Op → Prop}

instance RunAll.decidable [hgood : ∀ state op, Decidable (good state op)] :
    (ops : List Op) → (state : State) → Decidable (RunAll apply good ops state)
  | [], _ => isTrue trivial
  | op :: ops, state =>
    @instDecidableAnd _ _ (hgood state op) (RunAll.decidable ops (apply op state))

theorem RunAll.append {ops ops' : List Op} {state : State} :
    RunAll apply good (ops ++ ops') state ↔
      RunAll apply good ops state ∧ RunAll apply good ops' (run apply ops state) := by
  induction ops generalizing state with
  | nil => simp [RunAll]
  | cons op ops ih => simp only [List.cons_append, RunAll, run_cons, ih, and_assoc]

-- What every good operation keeps holds after the whole sequence.
theorem RunAll.invariant (inv : State → Prop)
    (hstep : ∀ state op, good state op → inv state → inv (apply op state)) {ops : List Op}
    {state : State} (hgood : RunAll apply good ops state) (hinv : inv state) :
    inv (run apply ops state) := by
  induction ops generalizing state with
  | nil => exact hinv
  | cons op ops ih => exact ih hgood.2 (hstep state op hgood.1 hinv)

-- A sequence is good when each operation is, after what comes before it.
theorem RunAll.of_forall {ops : List Op} {state : State}
    (h : ∀ before op after, ops = before ++ op :: after → good (run apply before state) op) :
    RunAll apply good ops state := by
  induction ops generalizing state with
  | nil => trivial
  | cons op ops ih =>
    refine ⟨h [] op ops rfl, ih fun before op' after he => ?_⟩
    exact h (op :: before) op' after (by rw [he, List.cons_append])

end Sequence
