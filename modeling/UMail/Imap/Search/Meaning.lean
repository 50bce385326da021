import UMail.Imap.Search

namespace UMail.Imap

open Fallible (ok_of_bind)
open UMail.Storage

inductive Key
  | plain (vals : List Bytes)
  | not (key : Key)
  | or (first second : Key)
  | group (keys : List Key)

section Meaning

variable (kit : Toolkit)

def keyCriteria (vals : List Bytes) : SearchCriteria := (parseSearchKey kit .everything vals).1

def arityOf (val : Bytes) : Option Nat :=
  match keyOf kit val with
  | some key => some key.arity
  | none => if isSequenceSetToken val then some 0 else none

mutual

inductive Reads : List Token → Key → Prop
  | plain (t : Token) (args : List Token) (hopen : t.isOpen = false) (hclose : t.isClose = false)
      (hnot : t.isNot kit = false) (hor : t.isOr kit = false)
      (harity : arityOf kit t.val = some args.length)
      (hargs : ∀ arg ∈ args, arg.isOpen = false ∧ arg.isClose = false) :
      Reads (t :: args) (.plain (t.val :: args.map Token.val))
  | not (t : Token) {toks : List Token} {key : Key} (hopen : t.isOpen = false)
      (hnot : t.isNot kit = true) (h : Reads toks key) : Reads (t :: toks) (.not key)
  | or (t : Token) {toks toks' : List Token} {first second : Key} (hopen : t.isOpen = false)
      (hnot : t.isNot kit = false) (hor : t.isOr kit = true) (h : Reads toks first)
      (h' : Reads toks' second) : Reads (t :: toks ++ toks') (.or first second)
  | group (t close : Token) {toks : List Token} {keys : List Key} (hopen : t.isOpen = true)
      (hclose : close.isClose = true) (h : ReadsAll toks keys) :
      Reads (t :: toks ++ [close]) (.group keys)

inductive ReadsAll : List Token → List Key → Prop
  | nil : ReadsAll [] []
  | cons {toks rest : List Token} {key : Key} {keys : List Key} (h : Reads toks key)
      (h' : ReadsAll rest keys) : ReadsAll (toks ++ rest) (key :: keys)

end

mutual

def Key.plains : Key → List (List Bytes)
  | .plain vals => [vals]
  | .not key => key.plains
  | .or first second => first.plains ++ second.plains
  | .group keys => plainKeys keys

def plainKeys : List Key → List (List Bytes)
  | [] => []
  | key :: keys => key.plains ++ plainKeys keys

end

def found : Except SearchError Bool → Bool
  | .ok b => b
  | .error _ => false

@[simp] theorem found_ok (b : Bool) : found (.ok b) = b := rfl

@[simp] theorem found_error (e : SearchError) : found (.error e) = false := rfl

@[simp] theorem isOk_ok {α : Type} (a : α) : (Except.ok a : Except SearchError α).isOk = true := rfl

@[simp] theorem isOk_error {α : Type} (e : SearchError) :
    (Except.error e : Except SearchError α).isOk = false := rfl

variable (view : SearchView)

def matchLive (c : SearchCriteria) (seqNum : Nat) (seqRanges : List SeqRange) :
    Except SearchError Bool := do
  let uidRanges ← parseSet c.uidSet
  match view.uids[seqNum - 1]? with
  | none => .ok false
  | some uid => searchMessage kit view c seqRanges uidRanges seqNum uid

def matchesAt (c : SearchCriteria) (seqNum : Nat) : Except SearchError Bool := do
  match ← liveCriteria view c with
  | none => .ok false
  | some c =>
    let seqRanges ← parseSet c.seqSet
    matchLive kit view c seqNum seqRanges

mutual

def Key.holds (seqNum : Nat) : Key → Bool
  | .plain vals => found (matchesAt kit view (keyCriteria kit vals) seqNum)
  | .not key => !key.holds seqNum
  | .or first second => first.holds seqNum || second.holds seqNum
  | .group keys => allHold seqNum keys

def allHold (seqNum : Nat) : List Key → Bool
  | [] => true
  | key :: keys => key.holds seqNum && allHold seqNum keys

end

def SearchView.positions : List Nat := List.range' 1 view.uids.length

def SearchView.readable (seqNum : Nat) : Bool := (view.uids[seqNum - 1]?.bind view.metadata).isSome

def SearchView.seqNums : List Nat := view.positions.filter view.readable

end Meaning

section Evaluation

variable (kit : Toolkit) (view : SearchView)

mutual

def SearchExpr.holds (seqNum : Nat) : SearchExpr → Bool
  | .mk flat terms => found (matchesAt kit view flat seqNum) && termsHold seqNum terms

def termsHold (seqNum : Nat) : List SearchTerm → Bool
  | [] => true
  | t :: terms => t.holds seqNum && termsHold seqNum terms

def SearchTerm.holds (seqNum : Nat) : SearchTerm → Bool
  | .not e => !e.holds seqNum
  | .or a b => a.holds seqNum || b.holds seqNum
  | .sub e => e.holds seqNum

end

variable {kit view}

theorem searchLoop_iff {c : SearchCriteria} {seqRanges uidRanges : List SeqRange} {seqNum : Nat}
    {uids : List UInt32} {nums : List Nat} :
    searchLoop kit view c seqRanges uidRanges seqNum uids = .ok nums ↔
      (∀ k uid, uids[k]? = some uid →
        (searchMessage kit view c seqRanges uidRanges (seqNum + k) uid).isOk) ∧
      nums = (List.range' seqNum uids.length).filter fun n =>
        uids[n - seqNum]?.any fun uid =>
          found (searchMessage kit view c seqRanges uidRanges n uid) := by
  induction uids generalizing seqNum nums with
  | nil =>
    refine ⟨fun h => ?_, fun ⟨_, h⟩ => by rw [h]; rfl⟩
    cases h
    exact ⟨fun k uid huid => (by cases huid), rfl⟩
  | cons uid rest ih =>
    -- The messages behind the first one are counted from the next number.
    have htail : ((List.range' (seqNum + 1) rest.length).filter fun n =>
        (uid :: rest)[n - seqNum]?.any fun uid =>
          found (searchMessage kit view c seqRanges uidRanges n uid)) =
        (List.range' (seqNum + 1) rest.length).filter fun n =>
          rest[n - (seqNum + 1)]?.any fun uid =>
            found (searchMessage kit view c seqRanges uidRanges n uid) := by
      refine List.filter_congr fun n hn => ?_
      obtain ⟨k, hk⟩ : ∃ k, n = seqNum + 1 + k :=
        Nat.exists_eq_add_of_le (List.mem_range'_1.mp hn).1
      obtain rfl := hk
      rw [show seqNum + 1 + k - seqNum = k + 1 by omega, Nat.add_sub_cancel_left,
        List.getElem?_cons_succ]
    have hall : (∀ k u, (uid :: rest)[k]? = some u →
        (searchMessage kit view c seqRanges uidRanges (seqNum + k) u).isOk) ↔
        (searchMessage kit view c seqRanges uidRanges seqNum uid).isOk ∧
          ∀ k u, rest[k]? = some u →
            (searchMessage kit view c seqRanges uidRanges (seqNum + 1 + k) u).isOk := by
      refine ⟨fun h => ⟨h 0 uid rfl, fun k u hu => ?_⟩, fun ⟨hfirst, hrest⟩ k u hu => ?_⟩
      · rw [Nat.add_assoc, Nat.add_comm 1 k]
        exact h (k + 1) u hu
      · cases k with
        | zero =>
          cases hu
          exact hfirst
        | succ k =>
          rw [← Nat.add_assoc, Nat.add_right_comm]
          exact hrest k u hu
    rw [hall, List.length_cons, List.range'_succ, List.filter_cons, htail]
    rcases hfirst : searchMessage kit view c seqRanges uidRanges seqNum uid with e | found
    · simp [searchLoop, hfirst, bind, Except.bind]
    cases hrest : searchLoop kit view c seqRanges uidRanges (seqNum + 1) rest with
    | error e =>
      have hno : ¬ ∀ k u, rest[k]? = some u →
          (searchMessage kit view c seqRanges uidRanges (seqNum + 1 + k) u).isOk :=
        fun h => by cases hrest.symm.trans (ih.mpr ⟨h, rfl⟩)
      simp only [searchLoop, hfirst, hrest, bind, Except.bind, hno, and_false, false_and,
        reduceCtorEq]
    | ok results =>
      obtain ⟨hmessages, rfl⟩ := ih.mp hrest
      simp only [searchLoop, hrest, bind, Except.bind]
      rw [and_iff_right ⟨rfl, hmessages⟩, eq_comm]
      cases found <;> simp [hfirst]

-- A scan is answered when it is for every message, and answers those that match.
theorem evalFlat_iff {c : SearchCriteria} {nums : List Nat} :
    evalFlat kit view c = .ok nums ↔ (∀ n, 1 ≤ n → (matchesAt kit view c n).isOk) ∧
      nums = view.positions.filter fun n => found (matchesAt kit view c n) := by
  unfold evalFlat matchesAt matchLive
  cases liveCriteria view c with
  | error e =>
    refine ⟨fun h => (by cases h), fun ⟨h, _⟩ => ?_⟩
    cases h 1 le_rfl
  | ok live =>
    cases live with
    | none =>
      refine ⟨fun h => ?_, fun ⟨_, h⟩ => ?_⟩
      · cases h
        exact ⟨fun n _ => rfl, by simp [bind, Except.bind]⟩
      · rw [h]
        simp [bind, Except.bind]
    | some c =>
      simp only [searchMessages, bind, Except.bind]
      cases parseSet c.seqSet with
      | error e =>
        refine ⟨fun h => (by cases h), fun ⟨h, _⟩ => ?_⟩
        cases h 1 le_rfl
      | ok seqRanges =>
        cases parseSet c.uidSet with
        | error e =>
          refine ⟨fun h => (by cases h), fun ⟨h, _⟩ => ?_⟩
          cases h 1 le_rfl
        | ok uidRanges =>
          rw [searchLoop_iff]
          refine and_congr ⟨fun h n hn => ?_, fun h k uid huid => ?_⟩ (Eq.congr_right ?_)
          · cases huid : view.uids[n - 1]? with
            | none => rfl
            | some uid =>
              obtain ⟨k, rfl⟩ := Nat.exists_eq_add_of_le hn
              rw [Nat.add_sub_cancel_left] at huid
              exact h k uid huid
          · have hn := h (1 + k) (Nat.le_add_right 1 k)
            rw [Nat.add_sub_cancel_left, huid] at hn
            exact hn
          · refine List.filter_congr fun n _ => ?_
            cases view.uids[n - 1]? <;> simp

theorem seqFilter_filter (nums : List Nat) (p q : Nat → Bool) (keep : Bool) :
    seqFilter (nums.filter p) (nums.filter q) keep = nums.filter fun n => p n && (q n == keep) := by
  unfold seqFilter
  rw [List.filter_filter]
  refine List.filter_congr fun n hn => ?_
  have hcontains : (nums.filter q).contains n = q n := by
    rw [Bool.eq_iff_iff, List.contains_iff_mem, List.mem_filter]
    exact and_iff_right hn
  rw [hcontains, Bool.and_comm]

theorem seqFilter_append (nums base : List Nat) (p q : Nat → Bool) (keep : Bool)
    (hbase : ∀ n ∈ base, n ∈ nums) : seqFilter base (nums.filter p ++ nums.filter q) keep =
      seqFilter base (nums.filter fun n => p n || q n) keep := by
  refine List.filter_congr fun n hn => ?_
  have hcontains : (nums.filter p ++ nums.filter q).contains n =
      (nums.filter fun n => p n || q n).contains n := by
    simp [hbase n hn]
  rw [hcontains]

mutual

-- Every expression is answered by the messages it holds for.
theorem evalSearch_ok : ∀ {e : SearchExpr} {nums : List Nat}, evalSearch kit view e = .ok nums →
    nums = view.positions.filter fun n => e.holds kit view n
  | .mk flat terms, nums, h => by
    rw [evalSearch] at h
    obtain ⟨base, hflat, h⟩ := ok_of_bind h
    obtain rfl := (evalFlat_iff.mp hflat).2
    simpa only [SearchExpr.holds] using evalTerms_ok h

theorem evalTerms_ok : ∀ {terms : List SearchTerm} {p : Nat → Bool} {nums : List Nat},
    evalTerms kit view terms (view.positions.filter p) = .ok nums →
      nums = view.positions.filter fun n => p n && termsHold kit view n terms
  | [], p, nums, h => by
    rw [evalTerms] at h
    cases h
    simp [termsHold]
  | t :: terms, p, nums, h => by
    rw [evalTerms] at h
    split_ifs at h with hempty
    · cases h
      rw [hempty]
      have hnone := List.filter_eq_nil_iff.mp hempty
      refine (List.filter_eq_nil_iff.mpr fun n hn hp => hnone n hn ?_).symm
      exact (Bool.and_eq_true_iff.mp hp).1
    · obtain ⟨base, hterm, h⟩ := ok_of_bind h
      obtain rfl := evalTerm_ok hterm
      simpa only [termsHold, Bool.and_assoc] using evalTerms_ok h

theorem evalTerm_ok : ∀ {t : SearchTerm} {p : Nat → Bool} {nums : List Nat},
    evalTerm kit view t (view.positions.filter p) = .ok nums →
      nums = view.positions.filter fun n => p n && t.holds kit view n
  | .not e, p, nums, h => by
    rw [evalTerm] at h
    obtain ⟨x, he, h⟩ := ok_of_bind h
    cases h
    rw [evalSearch_ok he, seqFilter_filter]
    simp [SearchTerm.holds]
  | .sub e, p, nums, h => by
    rw [evalTerm] at h
    obtain ⟨x, he, h⟩ := ok_of_bind h
    cases h
    rw [evalSearch_ok he, seqFilter_filter]
    simp [SearchTerm.holds]
  | .or a b, p, nums, h => by
    rw [evalTerm] at h
    obtain ⟨x, ha, h⟩ := ok_of_bind h
    obtain ⟨y, hb, h⟩ := ok_of_bind h
    cases h
    have hboth : x ++ y = _ ++ _ := congrArg₂ _ (evalSearch_ok ha) (evalSearch_ok hb)
    rw [hboth, seqFilter_append _ _ _ _ _ fun n hn => (List.mem_filter.mp hn).1, seqFilter_filter]
    simp [SearchTerm.holds]

end

variable (kit view) in

def Answered (c : SearchCriteria) : Prop := ∀ n, 1 ≤ n → (matchesAt kit view c n).isOk

theorem isOk_bind {α β : Type} {x : Except SearchError α} {f : α → Except SearchError β}
    (hx : x.isOk) (hf : ∀ a, (f a).isOk) : (x >>= f).isOk := by
  cases x with
  | error e => cases hx
  | ok a => exact hf a

theorem evalFlat_isOk_iff {c : SearchCriteria} :
    (evalFlat kit view c).isOk ↔ Answered kit view c := by
  constructor
  · intro h
    cases hflat : evalFlat kit view c with
    | error e => simp [hflat] at h
    | ok nums => exact (evalFlat_iff.mp hflat).1
  · intro h
    rw [evalFlat_iff.mpr ⟨h, rfl⟩]
    rfl

variable (kit view) in
mutual

def SearchExpr.Answered : SearchExpr → Prop
  | .mk flat terms => UMail.Imap.Answered kit view flat ∧ TermsAnswered terms

def TermsAnswered : List SearchTerm → Prop
  | [] => True
  | t :: terms => t.Answered ∧ TermsAnswered terms

def SearchTerm.Answered : SearchTerm → Prop
  | .not e | .sub e => e.Answered
  | .or a b => a.Answered ∧ b.Answered

end

mutual

theorem evalSearch_isOk : ∀ {e : SearchExpr}, e.Answered kit view → (evalSearch kit view e).isOk
  | .mk flat terms, h => by
    obtain ⟨hflat, hterms⟩ := h
    rw [evalSearch]
    exact isOk_bind (evalFlat_isOk_iff.mpr hflat) fun base => evalTerms_isOk hterms

theorem evalTerms_isOk : ∀ {terms : List SearchTerm} {base : List Nat},
    TermsAnswered kit view terms → (evalTerms kit view terms base).isOk
  | [], base, _ => by
    rw [evalTerms]
    rfl
  | t :: terms, base, h => by
    obtain ⟨hterm, hterms⟩ := h
    rw [evalTerms]
    split_ifs
    · rfl
    · exact isOk_bind (evalTerm_isOk hterm) fun base => evalTerms_isOk hterms

theorem evalTerm_isOk : ∀ {t : SearchTerm} {base : List Nat},
    t.Answered kit view → (evalTerm kit view t base).isOk
  | .not e, base, h => by
    rw [evalTerm]
    exact isOk_bind (evalSearch_isOk h) fun x => rfl
  | .sub e, base, h => by
    rw [evalTerm]
    exact isOk_bind (evalSearch_isOk h) fun x => rfl
  | .or a b, base, h => by
    obtain ⟨ha, hb⟩ := h
    rw [evalTerm]
    exact isOk_bind (evalSearch_isOk ha) fun x => isOk_bind (evalSearch_isOk hb) fun y => rfl

end

end Evaluation

end UMail.Imap
