import UMail.Concurrency.RelyGuarantee
import UMail.Mailstore.Books
import UMail.Mailstore.Operations

namespace UMail.Mailstore

open Concurrency UMail.Storage UMail.Db UMail.Imap

def BlobsPresent (b : Books) : Prop := ∀ id, Referenced b.row id → b.blobs[id]?.isSome

-- A delivery and a session never hold their two locks at the same time, the
-- look of a delivery at a file does not fail, and a row is written back only
-- over itself.
def Exclusive (setup : Setup) (w : World sig State) (thread : Nat) (c : Call) (choice : Choice) :
    Prop :=
  match c with
  | .lock .guard => w.state.held .delivery = none
  | .lock .delivery => w.state.held .guard = none
  | .messageExists _ => w.state.held .delivery = some thread → choice.fault = false
  | .updateMessageMetadata mailbox uid metadata =>
    (w.state.db.row setup.user mailbox uid).any (·.messageID = metadata.messageID) = true
  | _ => True

instance (setup : Setup) (w : World sig State) (thread : Nat) (c : Call) (choice : Choice) :
    Decidable (Exclusive setup w thread c choice) := by
  apply @Call.casesOn (fun c => Decidable (Exclusive setup w thread c choice)) c
  case lock =>
    intro l
    apply @Lock.casesOn (fun l => Decidable (Exclusive setup w thread (.lock l) choice)) l
    case guard | delivery => exact inferInstanceAs (Decidable (_ = none))
    all_goals exact isTrue trivial
  case messageExists => exact fun _ => inferInstanceAs (Decidable (_ = some _ → _ = false))
  case updateMessageMetadata => exact fun _ _ _ => inferInstanceAs (Decidable (_ = true))
  all_goals
    intros
    exact isTrue trivial

-- No file went away and no row came to hold one that it did not hold.
structure Undisturbed (b b' : Books) : Prop where
  present : ∀ id : Bytes, b.blobs[id]?.isSome → b'.blobs[id]?.isSome
  refs : ∀ id, Referenced b'.row id → Referenced b.row id

theorem Undisturbed.refl (b : Books) : Undisturbed b b := ⟨fun _ h => h, fun _ h => h⟩

theorem Undisturbed.trans {a b c : Books} (h : Undisturbed a b) (h' : Undisturbed b c) :
    Undisturbed a c :=
  ⟨fun id hid => h'.present id (h.present id hid), fun id hid => h.refs id (h'.refs id hid)⟩

theorem Undisturbed.blobsPresent {b b' : Books} (h : Undisturbed b b') (hb : BlobsPresent b) :
    BlobsPresent b' := fun id hid => h.present id (hb id (h.refs id hid))

def Owns (thread : Nat) (w : World sig State) : Prop :=
  w.state.held .guard = some thread ∨ w.state.held .delivery = some thread

def SameLocks (thread : Nat) (w w' : World sig State) : Prop :=
  (w.state.held .guard = some thread ↔ w'.state.held .guard = some thread) ∧
    (w.state.held .delivery = some thread ↔ w'.state.held .delivery = some thread)

theorem SameLocks.owns {thread : Nat} {w w' : World sig State} (h : SameLocks thread w w') :
    Owns thread w ↔ Owns thread w' := or_congr h.1 h.2

-- Whoever holds one of the locks has the files and the references to itself.
def blobDiscipline (setup : Setup) : Discipline (machine setup) where
  ok := Exclusive setup
  inv w := BlobsPresent (books setup w.state) ∧
    (w.state.held .guard = none ∨ w.state.held .delivery = none)
  rely thread w w' := SameLocks thread w w' ∧
    (Owns thread w → Undisturbed (books setup w.state) (books setup w'.state))
  guar thread w w' := (∀ other, other ≠ thread → SameLocks other w w') ∧
    (¬ Owns thread w → Undisturbed (books setup w.state) (books setup w'.state))
  rely_refl thread w := ⟨⟨Iff.rfl, Iff.rfl⟩, fun _ => .refl _⟩
  rely_trans := by
    rintro thread a b c ⟨hlocks, hab⟩ ⟨hlocks', hbc⟩
    exact ⟨⟨hlocks.1.trans hlocks'.1, hlocks.2.trans hlocks'.2⟩,
      fun ha => (hab ha).trans (hbc (hlocks.owns.mp ha))⟩
  guar_rely := by
    rintro thread other w w' hne ⟨_, hfree⟩ _ ⟨hlocks, hquiet⟩
    refine ⟨hlocks other (Ne.symm hne), fun howns => hquiet fun hthread => ?_⟩
    -- Two holders would have one lock each.
    rcases hfree with hg | hd
    · rcases howns with ho | ho
      · rw [hg] at ho
        cases ho
      · rcases hthread with ht | ht
        · rw [hg] at ht
          cases ht
        · rw [ho, Option.some.injEq] at ht
          exact hne ht.symm
    · rcases howns with ho | ho
      · rcases hthread with ht | ht
        · rw [ho, Option.some.injEq] at ht
          exact hne ht.symm
        · rw [hd] at ht
          cases ht
      · rw [hd] at ho
        cases ho

section Steps

variable {setup : Setup} {thread other : Nat} {w w' : World sig State} {c : Call} {choice : Choice}
  {result : c.Result}

theorem world_held (h : w.exec (machine setup) thread c choice = some (result, w')) :
    w'.state.held = heldEffect thread c w.state.held :=
  exec_held (World.exec_eq_some.mp h).1

theorem held_other (h : w.exec (machine setup) thread c choice = some (result, w'))
    (hne : other ≠ thread) {l : Lock} :
    w.state.held l = some other ↔ w'.state.held l = some other := by
  have hstep : exec setup thread choice w.state c = some (result, w'.state) :=
    (World.exec_eq_some.mp h).1
  rw [world_held h]
  cases c
  case lock l' =>
    have hfree := exec_lock hstep
    by_cases hl : l = l'
    · subst hl
      simp [heldEffect, hfree, Ne.symm hne]
    · simp [heldEffect, hl]
  case unlock l' =>
    have hheld := exec_unlock hstep
    by_cases hl : l = l'
    · subst hl
      simp [heldEffect, hheld, Ne.symm hne]
    · simp [heldEffect, hl]
  all_goals rfl

def Harmless : Call → Prop
  | .lock .guard | .lock .delivery | .unlock .guard | .unlock .delivery => False
  | .storeMessage _ | .storeMessageWithQuota _ _ | .deleteMessageUnchecked _ => False
  | .removeOrphan _ | .storeMessageMetadata _ _ _ | .updateMessageMetadataFunc _ _ _ => False
  | _ => True

theorem Referenced.of_setRow {b : Books} {mailbox id : Bytes} {uid : UInt32}
    {row : Option MessageMetadata} (h : Referenced (b.setRow mailbox uid row).row id) :
    Referenced b.row id ∨ ∃ new, row = some new ∧ new.messageID = id := by
  obtain ⟨box, u, found, hfound, hid⟩ := h
  rw [Books.setRow_row] at hfound
  split_ifs at hfound
  · exact .inr ⟨found, hfound, hid⟩
  · exact .inl ⟨box, u, found, hfound, hid⟩

theorem harmless_undisturbed (hc : Harmless c) (hok : Exclusive setup w thread c choice)
    (h : w.exec (machine setup) thread c choice = some (result, w')) :
    Undisturbed (books setup w.state) (books setup w'.state) := by
  have hsame : books setup w'.state = books setup w.state →
      Undisturbed (books setup w.state) (books setup w'.state) := fun he => he ▸ .refl _
  have hstep := world_books h
  cases c
  case storeMessage | storeMessageWithQuota | deleteMessageUnchecked | removeOrphan
      | storeMessageMetadata | updateMessageMetadataFunc => exact False.elim hc
  case messageExists | readMessage | blobReferenced | mapOrder | getMessageUIDs
      | getMessageMetadata => exact hsame hstep.1
  case incrementQuota delta =>
    rcases hstep with ⟨_, _, he, _⟩ | ⟨_, _, account, _, he⟩
    · exact hsame he
    · rw [he]
      exact ⟨fun _ hid => hid, fun _ hid => hid⟩
  case deleteMessage mailbox uid =>
    rcases hstep with ⟨_, _, he⟩ | ⟨_, he⟩
    · exact hsame he
    rw [he]
    refine ⟨fun _ hid => hid, fun id hid => ?_⟩
    rcases hid.of_setRow with hold | ⟨_, hnew, _⟩
    · exact hold
    · cases hnew
  case deleteMailbox mailbox =>
    rcases hstep with ⟨_, _, he⟩ | ⟨_, he⟩
    · exact hsame he
    rw [he]
    refine ⟨fun _ hid => hid, fun id hid => ?_⟩
    obtain ⟨box, u, row, hrow, hid⟩ := hid
    rw [Books.dropMailbox_row] at hrow
    split_ifs at hrow
    exact ⟨box, u, row, hrow, hid⟩
  case updateMessageMetadata mailbox uid metadata =>
    rcases hstep with ⟨_, _, he⟩ | ⟨_, row, hstored, he⟩
    · exact hsame he
    rw [he]
    refine ⟨fun _ hid => hid, fun id hid => ?_⟩
    rcases hid.of_setRow with hold | ⟨_, hnew, rfl⟩
    · exact hold
    -- The row that is overwritten held the same file.
    cases hnew
    obtain ⟨old, hold, hsameID⟩ := (Option.any_eq_true _ _).mp hok
    exact ⟨mailbox, uid, old, hold, by rw [hstored.messageID]; simpa using hsameID⟩
  all_goals exact hsame hstep

-- What a harmless step keeps is what the thread relies on anyway.
theorem harmless_step (hc : Harmless c) (hinv : (blobDiscipline setup).inv w)
    (hok : Exclusive setup w thread c choice)
    (h : w.exec (machine setup) thread c choice = some (result, w')) :
    (blobDiscipline setup).inv w' ∧ (blobDiscipline setup).guar thread w w' ∧
      (blobDiscipline setup).rely thread w w' := by
  have hquiet := harmless_undisturbed hc hok h
  have hlocks : w'.state.held .guard = w.state.held .guard ∧
      w'.state.held .delivery = w.state.held .delivery := by
    rw [world_held h]
    cases c
    case lock l | unlock l =>
      cases l
      case guard | delivery => exact False.elim hc
      all_goals exact ⟨rfl, rfl⟩
    all_goals exact ⟨rfl, rfl⟩
  refine ⟨⟨hquiet.blobsPresent hinv.1, ?_⟩, ⟨fun other hne => ?_, fun _ => hquiet⟩,
    ⟨by rw [hlocks.1], by rw [hlocks.2]⟩, fun _ => hquiet⟩
  · rw [hlocks.1, hlocks.2]
    exact hinv.2
  · exact ⟨held_other h hne, held_other h hne⟩

end Steps

end UMail.Mailstore
