import UMail.Library.Sequence
import UMail.Library.Utf8
import UMail.Storage.Keys
import Mathlib.Algebra.Order.Ring.Int
import Mathlib.Tactic.Common

namespace UMail.Server

open UMail.Storage (Bytes bytes)
open Utf8 (validText)
open Std (ExtTreeMap)

section Model

-- The deadlines in memory, which are missing until they are loaded, and the
-- lines of the file. Times are in nanoseconds.
structure VacationServer where
  vacationReplies : Option (ExtTreeMap Bytes Int)
  log : List (Bytes × Int)

def hour : Int := 3600 * 10 ^ 9

def defaultVacationInterval : Int := 7 * 24 * hour

-- Of the deadlines of a key that have not passed, the last one is kept.
def loadRecord (clock : Int) (replies : ExtTreeMap Bytes Int) (record : Bytes × Int) : ExtTreeMap Bytes Int :=
  if record.2 ≤ clock then replies
  else match replies[record.1]? with
    | some later => if record.2 ≤ later then replies else replies.insert record.1 record.2
    | none => replies.insert record.1 record.2

def loadVacationReplies (clock : Int) (log : List (Bytes × Int)) : ExtTreeMap Bytes Int :=
  log.foldl (loadRecord clock) ∅

-- JSON has no bytes that are no characters.
def vacationRecord (record : Bytes × Int) : Bytes × Int := (validText record.1, record.2)

def cleanupVacationReplies (clock : Int) (s : VacationServer) : VacationServer :=
  let replies := s.vacationReplies.map fun replies =>
    replies.filter fun _ lastSent => clock - 48 * hour ≤ lastSent
  ⟨replies, (replies.getD ∅).toList.map vacationRecord⟩

-- The caller has read the clock before it waits for the lock.
structure Claim where
  key : Bytes
  now : Int
  interval : Int
  clock : Int
  ordered : now ≤ clock

def Claim.window (c : Claim) : Int := if c.interval ≤ 0 then defaultVacationInterval else c.interval

def claimVacationReply (c : Claim) (s : VacationServer) : Bool × VacationServer :=
  let replies := s.vacationReplies.getD (loadVacationReplies c.clock s.log)
  if ∃ deadline ∈ replies[c.key]?, c.now < deadline then (false, ⟨some replies, s.log⟩)
  else
    let replies := replies.insert c.key (c.now + c.window)
    let s := ⟨some replies, s.log ++ [vacationRecord (c.key, c.now + c.window)]⟩
    (true, if 100 < replies.size then cleanupVacationReplies c.clock s else s)

inductive VacationStep
  | claim (c : Claim)
  | cleanup (clock : Int)
  | restart

def VacationStep.apply : VacationStep → VacationServer → VacationServer
  | .claim c, s => (claimVacationReply c s).2
  | .cleanup clock, s => cleanupVacationReplies clock s
  | .restart, s => ⟨none, s.log⟩

def VacationStep.clock? : VacationStep → Option Int
  | .claim c => some c.clock
  | .cleanup clock => some clock
  | .restart => none

-- The deadlines are loaded whenever they are cleaned up.
def VacationStep.Loaded (s : VacationServer) : VacationStep → Prop
  | .cleanup _ => s.vacationReplies.isSome
  | _ => True

abbrev runVacation (steps : List VacationStep) (s : VacationServer) : VacationServer :=
  Sequence.run VacationStep.apply steps s

end Model

def claimAt (time : Int) : Claim := ⟨bytes "k", time, 0, time, le_rfl⟩

-- The server is restarted, and the clean-up writes the deadlines that were never loaded.
theorem claimVacationReply_twice :
    (claimVacationReply (claimAt 0) ⟨none, []⟩).1 = true ∧
      (claimVacationReply (claimAt (2 * hour))
        (runVacation [.claim (claimAt 0), .restart, .cleanup hour] ⟨none, []⟩)).1 = true := by
  decide

section Held

variable {key : Bytes} {deadline clock : Int} {s : VacationServer} {replies : ExtTreeMap Bytes Int}

-- A deadline of the key that is not before this one.
def HeldIn (key : Bytes) (deadline : Int) (replies : ExtTreeMap Bytes Int) : Prop :=
  ∃ later, replies[key]? = some later ∧ deadline ≤ later

structure Held (key : Bytes) (deadline : Int) (s : VacationServer) : Prop where
  memory : ∀ replies, s.vacationReplies = some replies → HeldIn key deadline replies
  disk : ∃ later, (key, later) ∈ s.log ∧ deadline ≤ later

theorem HeldIn.insert {k : Bytes} {v : Int} (h : HeldIn key deadline replies)
    (hv : k = key → deadline ≤ v) : HeldIn key deadline (replies.insert k v) := by
  by_cases hk : k = key
  · exact ⟨v, by simp [hk], hv hk⟩
  · obtain ⟨later, hlater, hle⟩ := h
    exact ⟨later, by simp [ExtTreeMap.getElem?_insert, hk, hlater], hle⟩

theorem HeldIn.loadRecord (h : HeldIn key deadline replies) (record : Bytes × Int) :
    HeldIn key deadline (loadRecord clock replies record) := by
  unfold Server.loadRecord
  split_ifs
  · exact h
  split
  · rename_i later hlater
    split_ifs with hless
    · exact h
    refine h.insert fun hkey => ?_
    obtain ⟨later', hlater', hle⟩ := h
    rw [hkey, hlater'] at hlater
    cases hlater
    omega
  · rename_i hnone
    refine h.insert fun hkey => ?_
    obtain ⟨later', hlater', _⟩ := h
    rw [hkey, hlater'] at hnone
    cases hnone

variable {replies : ExtTreeMap Bytes Int} {c : Claim}

-- A record that has not passed is loaded, or one of its key that is later.
theorem heldIn_record {later : Int} (hle : deadline ≤ later)
    (hclock : clock < deadline) : HeldIn key deadline (loadRecord clock replies (key, later)) := by
  unfold loadRecord
  rw [if_neg (by omega)]
  split
  · rename_i other hother
    split_ifs with hless
    · exact ⟨other, hother, by omega⟩
    · exact ⟨later, by simp, hle⟩
  · exact ⟨later, by simp, hle⟩

theorem heldIn_load {log : List (Bytes × Int)}
    (h : HeldIn key deadline replies ∨ ∃ later, (key, later) ∈ log ∧ deadline ≤ later)
    (hclock : clock < deadline) : HeldIn key deadline (log.foldl (loadRecord clock) replies) := by
  induction log generalizing replies with
  | nil => simpa using h
  | cons record log ih =>
    refine ih ?_
    rcases h with h | ⟨later, hmem, hle⟩
    · exact .inl (h.loadRecord record)
    · rcases List.mem_cons.mp hmem with rfl | hmem
      · exact .inl (heldIn_record hle hclock)
      · exact .inr ⟨later, hmem, hle⟩

theorem held_of_replies (h : HeldIn key deadline replies)
    (hkey : validText key = key) : Held key deadline ⟨some replies, replies.toList.map vacationRecord⟩ := by
  refine ⟨fun _ he => Option.some.inj he ▸ h, ?_⟩
  obtain ⟨later, hlater, hle⟩ := h
  refine ⟨later, List.mem_map.mpr ⟨(key, later), ?_, by rw [vacationRecord, hkey]⟩, hle⟩
  exact ExtTreeMap.mem_toList_iff_getElem?_eq_some.mpr hlater

theorem held_cleanup (h : HeldIn key deadline replies)
    (hkey : validText key = key) (hs : s.vacationReplies = some replies) (hclock : clock < deadline) :
    Held key deadline (cleanupVacationReplies clock s) := by
  obtain ⟨later, hlater, hle⟩ := h
  rw [cleanupVacationReplies, hs]
  refine held_of_replies ⟨later, ?_, hle⟩ hkey
  simp [hlater, hour]
  omega

-- A claim before the deadline leaves it, and is not granted for its key.
theorem Held.claim (h : Held key deadline s) (hkey : validText key = key)
    (hclock : c.clock < deadline) :
    Held key deadline (claimVacationReply c s).2 ∧ (c.key = key → (claimVacationReply c s).1 = false) := by
  have hreplies : HeldIn key deadline (s.vacationReplies.getD (loadVacationReplies c.clock s.log)) := by
    cases hs : s.vacationReplies with
    | some replies => exact h.memory replies hs
    | none => exact heldIn_load (.inr h.disk) hclock
  unfold claimVacationReply
  dsimp only
  split_ifs with hsent hmany
  · exact ⟨⟨fun _ he => Option.some.inj he ▸ hreplies, h.disk⟩, fun _ => rfl⟩
  all_goals
    have hother : c.key ≠ key := by
      rintro rfl
      obtain ⟨later, hlater, hle⟩ := hreplies
      have := c.ordered
      exact hsent ⟨later, hlater, by omega⟩
    have hinserted := hreplies.insert (v := c.now + c.window) fun he => absurd he hother
    refine ⟨?_, fun he => absurd he hother⟩
  · exact held_cleanup hinserted hkey rfl hclock
  · obtain ⟨later, hmem, hle⟩ := h.disk
    exact ⟨fun _ he => Option.some.inj he ▸ hinserted, later, List.mem_append_left _ hmem, hle⟩

theorem Held.step {step : VacationStep} (h : Held key deadline s) (hkey : validText key = key)
    (hloaded : step.Loaded s) (hclock : ∀ clock ∈ step.clock?, clock < deadline) :
    Held key deadline (step.apply s) := by
  cases step with
  | claim c => exact (h.claim hkey (hclock _ rfl)).1
  | cleanup clock =>
    obtain ⟨replies, hs⟩ := Option.isSome_iff_exists.mp hloaded
    exact held_cleanup (h.memory replies hs) hkey hs (hclock _ rfl)
  | restart => exact ⟨fun _ he => (by cases he), h.disk⟩

theorem Held.run {steps : List VacationStep} (h : Held key deadline s) (hkey : validText key = key)
    (hloaded : Sequence.RunAll VacationStep.apply VacationStep.Loaded steps s)
    (hclock : ∀ clock ∈ steps.filterMap VacationStep.clock?, clock < deadline) :
    Held key deadline (runVacation steps s) := by
  induction steps generalizing s with
  | nil => exact h
  | cons step steps ih =>
    have hstep : ∀ clock ∈ step.clock?, clock < deadline := fun clock hc =>
      hclock clock (List.mem_filterMap.mpr ⟨step, List.mem_cons_self, hc⟩)
    refine ih (h.step hkey hloaded.1 hstep) hloaded.2 fun clock hc => hclock clock ?_
    obtain ⟨other, hother, hc⟩ := List.mem_filterMap.mp hc
    exact List.mem_filterMap.mpr ⟨other, List.mem_cons_of_mem _ hother, hc⟩

theorem held_granted (hkey : validText c.key = c.key) (h : (claimVacationReply c s).1 = true)
    (hclock : c.clock < c.now + c.window) : Held c.key (c.now + c.window) (claimVacationReply c s).2 := by
  unfold claimVacationReply at h ⊢
  generalize s.vacationReplies.getD (loadVacationReplies c.clock s.log) = replies at h ⊢
  dsimp only at h ⊢
  have hinserted : HeldIn c.key (c.now + c.window) (replies.insert c.key (c.now + c.window)) :=
    ⟨_, by simp, le_rfl⟩
  split_ifs at h ⊢ with hsent hmany
  · exact held_cleanup hinserted hkey rfl hclock
  · refine ⟨fun _ he => Option.some.inj he ▸ hinserted, _, ?_, le_rfl⟩
    exact List.mem_append_right _ (by rw [vacationRecord, hkey]; exact List.mem_singleton_self _)

end Held

-- The second reply is not sent before the window of the first one has passed.
theorem claimVacationReply_once (s : VacationServer) (first second : Claim) (steps : List VacationStep)
    (hclock : ((first.clock :: steps.filterMap VacationStep.clock?) ++ [second.clock]).Pairwise (· ≤ ·))
    (hsame : first.key = second.key) (hkey : validText first.key = first.key)
    (hloaded : Sequence.RunAll VacationStep.apply VacationStep.Loaded steps (claimVacationReply first s).2)
    (hfirst : (claimVacationReply first s).1 = true)
    (hsecond : (claimVacationReply second (runVacation steps (claimVacationReply first s).2)).1 = true) :
    first.now + first.window ≤ second.clock := by
  by_contra hearly
  have hbefore : ∀ clock ∈ first.clock :: steps.filterMap VacationStep.clock?,
      clock < first.now + first.window := fun clock hmem =>
    ((List.pairwise_append.mp hclock).2.2 clock hmem _ (List.mem_singleton_self _)).trans_lt
      (not_le.mp hearly)
  have hheld := (held_granted hkey hfirst (hbefore _ List.mem_cons_self)).run hkey hloaded
    fun clock hmem => hbefore clock (List.mem_cons_of_mem _ hmem)
  rw [(hheld.claim hkey (not_le.mp hearly)).2 hsame.symm] at hsecond
  cases hsecond

-- A refused claim loads the file before the clean-up.
def restarted : List VacationStep := [.restart, .claim (claimAt hour), .cleanup (2 * hour), .restart]

theorem claimVacationReply_once_restarted :
    (claimVacationReply (claimAt (200 * hour)) (runVacation restarted
      (claimVacationReply (claimAt 0) ⟨none, []⟩).2)).1 = true ∧
    (claimAt 0).now + (claimAt 0).window ≤ (claimAt (200 * hour)).clock := by
  have hsecond : (claimVacationReply (claimAt (200 * hour)) (runVacation restarted
      (claimVacationReply (claimAt 0) ⟨none, []⟩).2)).1 = true := by
    decide +kernel
  exact ⟨hsecond, claimVacationReply_once ⟨none, []⟩ (claimAt 0) _ restarted (by decide) (by decide)
    (by decide) ⟨trivial, trivial, rfl, trivial, trivial⟩ (by decide) hsecond⟩

end UMail.Server
