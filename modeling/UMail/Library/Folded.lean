import Mathlib.Data.List.DropRight
import Mathlib.Order.Basic

-- Lines some of which continue the one before them.
namespace Folded

section Groups

variable {α : Type} (continues : α → Bool)

def groups : List α → List (List α)
  | [] => []
  | line :: rest => match groups rest with
    | (next :: more) :: others =>
      if continues next then (line :: next :: more) :: others else [line] :: (next :: more) :: others
    | others => [line] :: others

-- A pass that removes a line, given what follows, with the lines that continue it.
def keep (drop : α → List α → Bool) : Bool → List α → List α
  | _, [] => []
  | dropping, line :: rest =>
    if (if continues line then dropping else drop line rest) then keep drop true rest
    else line :: keep drop false rest

def places {β : Type} : List β → List (β × List β)
  | [] => []
  | x :: rest => (x, rest) :: places rest

-- What the pass removes, by groups.
def dropped (drop : α → List α → Bool) (place : List α × List (List α)) : Bool :=
  match place.1 with
  | [] => false
  | line :: more => !continues line && drop line (more ++ place.2.flatten)

variable {continues}

theorem groups_cons (line : α) (rest : List α) :
    groups continues (line :: rest) =
      (line :: rest.takeWhile continues) :: groups continues (rest.dropWhile continues) := by
  induction rest generalizing line with
  | nil => rfl
  | cons next rest ih =>
    rw [groups, ih]
    dsimp only
    split_ifs with hnext
    · rw [List.takeWhile_cons_of_pos hnext, List.dropWhile_cons_of_pos hnext]
    · rw [List.takeWhile_cons_of_neg hnext, List.dropWhile_cons_of_neg hnext, ih]

theorem groups_induction {continues : α → Bool} {motive : List α → Prop} (nil : motive [])
    (cons : ∀ line rest, motive (rest.dropWhile continues) → motive (line :: rest)) :
    ∀ lines, motive lines := by
  intro lines
  induction hn : lines.length using Nat.strongRecOn generalizing lines with
  | _ n ih =>
    rcases lines with _ | ⟨line, rest⟩
    · exact nil
    have hle : (rest.dropWhile continues).length ≤ rest.length :=
      (List.dropWhile_suffix continues).length_le
    exact cons line rest (ih _ (by rw [← hn, List.length_cons]; omega) _ rfl)

variable (lines : List α) {lines : List α}

theorem flatten_groups : (groups continues lines).flatten = lines := by
  induction lines using groups_induction with
  | nil => rfl
  | cons line rest ih =>
    rw [groups_cons, List.flatten_cons, ih, List.cons_append, List.takeWhile_append_dropWhile]

theorem exists_head_of_mem_groups {group : List α} (h : group ∈ groups continues lines) :
    ∃ line more, group = line :: more ∧ line ∈ lines := by
  induction lines using groups_induction with
  | nil => cases h
  | cons line rest ih =>
    rw [groups_cons] at h
    rcases List.mem_cons.mp h with rfl | h
    · exact ⟨line, _, rfl, List.mem_cons_self⟩
    · obtain ⟨head, more, rfl, hhead⟩ := ih h
      exact ⟨head, more, rfl, List.mem_cons_of_mem _ ((List.dropWhile_suffix _).subset hhead)⟩

-- Groups are found again in the lines of any of them.
structure Grouped (continues : α → Bool) (gs : List (List α)) : Prop where
  shape : ∀ g ∈ gs, ∃ line more, g = line :: more ∧ ∀ l ∈ more, continues l = true
  starts : ∀ g ∈ gs.tail, ∀ line ∈ g.head?, continues line = false

theorem grouped_groups : Grouped continues (groups continues lines) := by
  refine ⟨fun g hg => ?_, ?_⟩
  · induction lines using groups_induction with
    | nil => cases hg
    | cons line rest ih =>
      rw [groups_cons] at hg
      rcases List.mem_cons.mp hg with rfl | hg
      · exact ⟨line, _, rfl, fun l hl => List.mem_takeWhile_imp hl⟩
      · exact ih hg
  · induction lines using groups_induction with
    | nil => exact fun g hg => by cases hg
    | cons line rest ih =>
      rw [groups_cons]
      intro g hg
      cases hrest : rest.dropWhile continues with
      | nil =>
        rw [hrest] at hg
        cases hg
      | cons next others =>
        rw [hrest] at hg ih
        rw [groups_cons] at hg ih
        rcases List.mem_cons.mp hg with rfl | hg
        · intro first hfirst
          cases hfirst
          have hnext := List.head_dropWhile_not continues (l := rest)
            (by rw [hrest]; exact List.cons_ne_nil _ _)
          simpa [hrest] using hnext
        · exact ih g hg

theorem Grouped.sublist {gs gs' : List (List α)} (h : Grouped continues gs) (hsub : gs'.Sublist gs) :
    Grouped continues gs' := by
  refine ⟨fun g hg => h.shape g (hsub.subset hg), ?_⟩
  have htail : gs'.tail.Sublist gs.tail := hsub.tail
  exact fun g hg => h.starts g (htail.subset hg)

theorem Grouped.groups_flatten {gs : List (List α)} (h : Grouped continues gs) :
    groups continues gs.flatten = gs := by
  induction gs with
  | nil => rfl
  | cons g gs ih =>
    obtain ⟨line, more, rfl, hmore⟩ := h.shape _ List.mem_cons_self
    have hrest : Grouped continues gs := h.sublist (List.sublist_cons_self _ _)
    have hhead : ∀ first ∈ gs.flatten.head?, ¬ continues first = true := by
      intro first hfirst
      rcases gs with _ | ⟨g', gs⟩
      · cases hfirst
      obtain ⟨line', more', rfl, -⟩ := hrest.shape _ List.mem_cons_self
      cases hfirst
      rw [h.starts _ List.mem_cons_self first rfl]
      exact Bool.false_ne_true
    have hspan : (more ++ gs.flatten).takeWhile continues = more ∧
        (more ++ gs.flatten).dropWhile continues = gs.flatten := by
      rw [List.takeWhile_append_of_pos hmore, List.dropWhile_append_of_pos hmore]
      rcases hlines : gs.flatten with _ | ⟨first, others⟩
      · exact ⟨List.append_nil _, rfl⟩
      have hfirst := hhead first (by rw [hlines]; rfl)
      rw [List.takeWhile_cons_of_neg hfirst, List.dropWhile_cons_of_neg hfirst, List.append_nil]
      exact ⟨rfl, rfl⟩
    rw [List.flatten_cons, List.cons_append, groups_cons, hspan.1, hspan.2, ih hrest]

variable {drop : α → List α → Bool} {β : Type}

theorem keep_sublist (dropping : Bool) (lines : List α) :
    (keep continues drop dropping lines).Sublist lines := by
  induction lines generalizing dropping with
  | nil => exact .slnil
  | cons line rest ih =>
    rw [keep]
    by_cases hdrop : (if continues line then dropping else drop line rest) = true
    · rw [if_pos hdrop]
      exact (ih true).cons line
    · rw [if_neg hdrop]
      exact (ih false).cons_cons line

theorem keep_true :
    keep continues drop true lines = keep continues drop false (lines.dropWhile continues) := by
  induction lines with
  | nil => rfl
  | cons line rest ih =>
    by_cases hline : continues line = true
    · rw [keep, if_pos hline, if_pos rfl, ih, List.dropWhile_cons_of_pos hline]
    · rw [List.dropWhile_cons_of_neg hline, keep, keep, if_neg hline, if_neg hline]

theorem keep_false : keep continues drop false lines =
      lines.takeWhile continues ++ keep continues drop false (lines.dropWhile continues) := by
  induction lines with
  | nil => rfl
  | cons line rest ih =>
    by_cases hline : continues line = true
    · rw [List.takeWhile_cons_of_pos hline, List.dropWhile_cons_of_pos hline, List.cons_append, ← ih,
        keep, if_pos hline, if_neg Bool.false_ne_true]
    · rw [List.takeWhile_cons_of_neg hline, List.dropWhile_cons_of_neg hline, List.nil_append]

-- The pass keeps the groups that it does not remove.
theorem keep_eq : keep continues drop false lines =
      (((places (groups continues lines)).filter fun place => !dropped continues drop place).map
        Prod.fst).flatten := by
  induction lines using groups_induction with
  | nil => rfl
  | cons line rest ih =>
    have hrest : rest.takeWhile continues ++ (groups continues (rest.dropWhile continues)).flatten =
        rest := by
      rw [flatten_groups, List.takeWhile_append_dropWhile]
    have hdropped : dropped continues drop
        (line :: rest.takeWhile continues, groups continues (rest.dropWhile continues)) =
          (!continues line && drop line rest) := by
      simp only [dropped, hrest]
    rw [groups_cons, places, List.filter_cons, hdropped, keep]
    cases hline : continues line with
    | true =>
      rw [if_neg (by simp), keep_false, ih]
      rfl
    | false =>
      cases hdrop : drop line rest with
      | true => rw [if_pos (by simp), if_neg (by simp), keep_true, ih]
      | false =>
        rw [if_neg (by simp), keep_false, ih]
        rfl

-- The same for a pass that looks at no more than the line.
theorem mem_keep {drop : α → Bool} {line : α} {dropping : Bool}
    (h : line ∈ keep continues (fun line _ => drop line) dropping lines)
    (hline : continues line = false) : drop line = false := by
  induction lines generalizing dropping with
  | nil => cases h
  | cons first rest ih =>
    rw [keep] at h
    by_cases hdrop : (if continues first then dropping else drop first) = true
    · rw [if_pos hdrop] at h
      exact ih h
    rw [if_neg hdrop] at h
    rcases List.mem_cons.mp h with rfl | h
    · rw [hline] at hdrop
      exact eq_false_of_ne_true hdrop
    · exact ih h

theorem keep_eq_self {drop : α → Bool}
    (h : ∀ line ∈ lines, continues line = false → drop line = false) :
    keep continues (fun line _ => drop line) false lines = lines := by
  induction lines with
  | nil => rfl
  | cons line rest ih =>
    have hdrop : ¬ (if continues line then false else drop line) = true := by
      split_ifs with hline
      · exact not_false
      · rw [h line List.mem_cons_self (eq_false_of_ne_true hline)]
        exact Bool.false_ne_true
    rw [keep, if_neg hdrop, ih fun line hline => h line (List.mem_cons_of_mem _ hline)]

theorem map_fst_places (xs : List β) : (places xs).map Prod.fst = xs := by
  induction xs with
  | nil => rfl
  | cons x xs ih => rw [places, List.map_cons, ih]

theorem exists_of_mem_places {xs : List β} {place : β × List β} (h : place ∈ places xs) :
    ∃ before, xs = before ++ place.1 :: place.2 := by
  induction xs with
  | nil => cases h
  | cons x xs ih =>
    rcases List.mem_cons.mp h with rfl | h
    · exact ⟨[], rfl⟩
    · obtain ⟨before, hbefore⟩ := ih h
      exact ⟨x :: before, by rw [hbefore]; rfl⟩

theorem filter_places (p : β → Bool) (xs : List β) :
    ((places xs).filter fun place => p place.1).map Prod.fst = xs.filter p := by
  induction xs with
  | nil => rfl
  | cons x xs ih =>
    rw [places, List.filter_cons, List.filter_cons, ← ih]
    split_ifs <;> rfl

theorem keep_eq_filter (drop : α → Bool) (lines : List α) :
    keep continues (fun line _ => drop line) false lines =
      ((groups continues lines).filter fun group =>
        !group.head?.any fun line => !continues line && drop line).flatten := by
  rw [keep_eq, ← filter_places _ (groups continues lines)]
  refine congrArg (fun l => (List.map Prod.fst l).flatten) (List.filter_congr fun place _ => ?_)
  rw [dropped]
  rcases place.1 with _ | ⟨line, more⟩ <;> rfl

end Groups

section Agreement

variable {β γ : Type} {p q : β → Bool} {xs : List β}

theorem agree_of_countP (hle : ∀ x ∈ xs, p x = true → q x = true) (h : xs.countP q ≤ xs.countP p) :
    ∀ x ∈ xs, p x = q x := by
  induction xs with
  | nil => exact fun x hx => by cases hx
  | cons x xs ih =>
    have hrest := fun y hy => hle y (List.mem_cons_of_mem x hy)
    have hcount : xs.countP p ≤ xs.countP q := List.countP_mono_left hrest
    have hx := hle x List.mem_cons_self
    rw [List.countP_cons, List.countP_cons] at h
    refine List.forall_mem_cons.mpr ⟨?_, ih hrest ?_⟩
    · cases hp : p x with
      | true => exact (hx hp).symm
      | false =>
        cases hq : q x with
        | false => rfl
        | true =>
          rw [hp, hq, if_neg Bool.false_ne_true, if_pos rfl] at h
          omega
    · cases hp : p x with
      | true =>
        rw [hp, hx hp] at h
        omega
      | false =>
        rw [hp, if_neg Bool.false_ne_true] at h
        omega

-- Two selections with the same result are the same, when on either side of a
-- division of the results one of them selects no less.
theorem agree_of_filter (f : β → γ) (side : γ → Bool)
    (h : (xs.filter p).map f = (xs.filter q).map f)
    (hon : ∀ x ∈ xs, side (f x) = true → p x = true → q x = true)
    (hoff : ∀ x ∈ xs, side (f x) = false → q x = true → p x = true) : ∀ x ∈ xs, p x = q x := by
  have hcount : ∀ side : γ → Bool,
      xs.countP (fun x => p x && side (f x)) = xs.countP (fun x => q x && side (f x)) := by
    intro side
    have hmap := congrArg (List.countP side) h
    rw [List.countP_map, List.countP_map, List.countP_filter, List.countP_filter] at hmap
    rw [show (fun x => p x && side (f x)) = fun x => (side ∘ f) x && p x by
        funext x
        exact Bool.and_comm _ _,
      show (fun x => q x && side (f x)) = fun x => (side ∘ f) x && q x by
        funext x
        exact Bool.and_comm _ _]
    exact hmap
  have hleft : ∀ x ∈ xs, (p x && side (f x)) = (q x && side (f x)) := by
    refine agree_of_countP (fun x hx hp => ?_) (hcount side).ge
    rw [Bool.and_eq_true] at hp ⊢
    exact ⟨hon x hx hp.2 hp.1, hp.2⟩
  have hright : ∀ x ∈ xs, (q x && !side (f x)) = (p x && !side (f x)) := by
    refine agree_of_countP (fun x hx hq => ?_) (hcount fun y => !side y).le
    rw [Bool.and_eq_true] at hq ⊢
    exact ⟨hoff x hx (by simpa using hq.2) hq.1, hq.2⟩
  intro x hx
  have hleft := hleft x hx
  have hright := hright x hx
  cases hside : side (f x) with
  | true => simpa [hside] using hleft
  | false => simpa [hside] using hright.symm

end Agreement

end Folded
