import UMail.Concurrency.Program

namespace Concurrency

variable {S : Signature} {State Choice α β : Type} {m : Machine S State Choice}
  {ok : World S State → Nat → S.Call → Choice → Prop} {thread : Nat}

variable {value : α} {w w' : World S State} {program : Program S α} {pre : World S State → Prop}
  {post : α → World S State → Prop} {c : S.Call} {rest : α → Program S β}

theorem exec_done {value' : α} :
    Exec m ok thread (.done value) w value' w' ↔ value = value' ∧ w = w' := by
  constructor
  · rintro ⟨⟩
    exact ⟨rfl, rfl⟩
  · rintro ⟨rfl, rfl⟩
    exact .done value w

theorem exec_call {next : S.Result c → Program S α} : Exec m ok thread (.call c next) w value w' ↔
      ∃ choice result w₁, ok w thread c choice ∧ w.exec m thread c choice = some (result, w₁) ∧
        Exec m ok thread (next result) w₁ value w' := by
  constructor
  · intro h
    cases h with
    | call hok hexec rest => exact ⟨_, _, _, hok, hexec, rest⟩
  · rintro ⟨choice, result, w₁, hok, hexec, rest⟩
    exact .call hok hexec rest

theorem exec_bind {value : β} : Exec m ok thread (program >>= rest) w value w' ↔
      ∃ middle w₁, Exec m ok thread program w middle w₁ ∧
        Exec m ok thread (rest middle) w₁ value w' := by
  induction program generalizing w with
  | done middle =>
    constructor
    · exact fun h => ⟨middle, w, .done middle w, h⟩
    · rintro ⟨middle', w₁, h₁, h₂⟩
      obtain ⟨rfl, rfl⟩ := exec_done.mp h₁
      exact h₂
  | call c next ih =>
    rw [Program.call_bind, exec_call]
    constructor
    · rintro ⟨choice, result, w₁, hok, hexec, h⟩
      obtain ⟨middle, w₂, h₁, h₂⟩ := (ih result).mp h
      exact ⟨middle, w₂, .call hok hexec h₁, h₂⟩
    · rintro ⟨middle, w₂, h₁, h₂⟩
      cases h₁ with
      | call hok hexec h => exact ⟨_, _, _, hok, hexec, (ih _).mpr ⟨middle, w₂, h, h₂⟩⟩

-- What a program does to the world when it runs alone, whatever the
-- environment chooses at its calls.
def Triple (m : Machine S State Choice) (ok : World S State → Nat → S.Call → Choice → Prop)
    (pre : World S State → Prop) (program : Program S α) (post : α → World S State → Prop) : Prop :=
  ∀ thread w value w', Exec m ok thread program w value w' → pre w → post value w'

theorem Triple.done (h : ∀ w, pre w → post value w) : Triple m ok pre (.done value) post := by
  rintro thread w value' w' hexec hpre
  obtain ⟨rfl, rfl⟩ := exec_done.mp hexec
  exact h _ hpre

theorem Triple.perform_bind {rest : S.Result c → Program S α}
    (middle : S.Result c → World S State → Prop)
    (hcall : ∀ w thread choice result w', ok w thread c choice →
      w.exec m thread c choice = some (result, w') → pre w → middle result w')
    (hrest : ∀ result, Triple m ok (middle result) (rest result) post) :
    Triple m ok pre (Program.perform c >>= rest) post := by
  intro thread w value w' hexec hpre
  obtain ⟨choice, result, w₁, hok, he, hexec⟩ := exec_call.mp hexec
  exact hrest result thread w₁ value w' hexec (hcall w thread choice result w₁ hok he hpre)

theorem Triple.bind {post : β → World S State → Prop}
    (middle : α → World S State → Prop) (hprogram : Triple m ok pre program middle)
    (hrest : ∀ value, Triple m ok (middle value) (rest value) post) :
    Triple m ok pre (program >>= rest) post := by
  intro thread w value w' hexec hpre
  obtain ⟨v, w₁, h₁, h₂⟩ := exec_bind.mp hexec
  exact hrest v thread w₁ value w' h₂ (hprogram thread w v w₁ h₁ hpre)

theorem Triple.weaken {pre' : World S State → Prop} {post' : α → World S State → Prop}
    (h : Triple m ok pre program post) (hpre : ∀ w, pre' w → pre w)
    (hpost : ∀ value w, post value w → post' value w) :
    Triple m ok pre' program post' := fun thread w value w' hexec h' =>
  hpost value _ (h thread w value w' hexec (hpre _ h'))

theorem Triple.entails (pre' : World S State → Prop) (hpre : ∀ w, pre w → pre' w)
    (h : Triple m ok pre' program post) : Triple m ok pre program post :=
  h.weaken hpre fun _ _ hpost => hpost

theorem Exec.of_execWith [∀ w thread c choice, Decidable (ok w thread c choice)] {choices : List Choice}
    (h : program.execWith m ok thread w choices = some (value, w')) :
    Exec m ok thread program w value w' := by
  induction program generalizing w choices with
  | done value =>
    obtain ⟨rfl, rfl⟩ := h
    exact .done _ _
  | call c next ih =>
    rcases choices with _ | ⟨choice, rest⟩
    · simp [Program.execWith] at h
    simp only [Program.execWith] at h
    split_ifs at h with hok
    obtain ⟨⟨result, w₁⟩, he, hr⟩ := Option.bind_eq_some_iff.mp h
    exact .call hok he (ih result hr)

end Concurrency
