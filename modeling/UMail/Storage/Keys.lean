import UMail.Library.Fallible
import UMail.Library.Separator
import Mathlib.Data.List.Infix

namespace UMail.Storage

open Separator (append_separator_inj)

-- Strings of the server are sequences of bytes, not of characters.
abbrev Bytes := List UInt8

instance : LawfulBEq Bytes := inferInstanceAs (LawfulBEq (List UInt8))

def bytes (literal : String) : Bytes :=
  literal.toUTF8.data.toList

def colon : UInt8 := 58

-- userKeyEscaper: NUL becomes NUL z and a colon becomes NUL c.
def escapeByte (c : UInt8) : Bytes :=
  if c = 0 then [0, 122] else if c = colon then [0, 99] else [c]

def keyUser (user : Bytes) : Bytes :=
  if user.any (fun c => c = colon || c = 0) then user.flatMap escapeByte else user

def mailboxKey (user mailbox : Bytes) : Bytes :=
  bytes "mailbox:" ++ keyUser user ++ colon :: mailbox

def messagesBucket (user mailbox : Bytes) : Bytes :=
  bytes "msgs:" ++ keyUser user ++ colon :: mailbox

def aclOwnerMailboxPrefix (owner mailbox : Bytes) : Bytes :=
  bytes "acl:" ++ keyUser owner ++ colon :: mailbox ++ [colon]

def aclKey (owner mailbox grantee : Bytes) : Bytes :=
  aclOwnerMailboxPrefix owner mailbox ++ grantee

theorem keyUser_eq_flatMap (user : Bytes) : keyUser user = user.flatMap escapeByte := by
  unfold keyUser
  split
  · rfl
  rename_i hplain
  induction user with
  | nil => rfl
  | cons c rest ih =>
    simp only [List.any_cons, Bool.or_eq_true, decide_eq_true_eq, not_or] at hplain
    obtain ⟨⟨hcolon, hnul⟩, hrest⟩ := hplain
    rw [List.flatMap_cons, ← ih hrest]
    simp [escapeByte, hcolon, hnul]

theorem colon_notMem_keyUser {user : Bytes} : colon ∉ keyUser user := by
  rw [keyUser_eq_flatMap, List.mem_flatMap]
  rintro ⟨c, _, hc⟩
  unfold escapeByte at hc
  split_ifs at hc with h0 h1
  · simp [colon] at hc
  · simp [colon] at hc
  · simp only [List.mem_singleton] at hc
    exact h1 hc.symm

-- The escaped bytes form a prefix code, so the first byte and at most one more
-- decide which byte was escaped.
theorem escapeByte_append_inj {a b : UInt8} {s t : Bytes}
    (h : escapeByte a ++ s = escapeByte b ++ t) : a = b ∧ s = t := by
  unfold escapeByte at h
  split_ifs at h with ha hb hb' ha' hb hb' hb hb' <;> simp_all

theorem keyUser_injective : Function.Injective keyUser := by
  intro user other h
  rw [keyUser_eq_flatMap, keyUser_eq_flatMap] at h
  induction user generalizing other with
  | nil =>
    rcases other with _ | ⟨d, rest⟩
    · rfl
    rw [List.flatMap_cons] at h
    unfold escapeByte at h
    split_ifs at h <;> simp at h
  | cons c rest ih =>
    cases other with
    | nil =>
      rw [List.flatMap_cons] at h
      unfold escapeByte at h
      split_ifs at h <;> simp at h
    | cons d other =>
      obtain ⟨rfl, ht⟩ := escapeByte_append_inj h
      rw [ih ht]

variable {user other mailbox mailbox' : Bytes}

-- A user name cannot hide the separator, so the user and the rest of a key can
-- be read back from it.
theorem keyUser_append_inj {rest rest' : Bytes}
    (h : keyUser user ++ colon :: rest = keyUser other ++ colon :: rest') :
    user = other ∧ rest = rest' := by
  obtain ⟨hu, hr⟩ := append_separator_inj colon_notMem_keyUser
    colon_notMem_keyUser h
  exact ⟨keyUser_injective hu, hr⟩

theorem mailboxKey_inj :
    mailboxKey user mailbox = mailboxKey other mailbox' ↔ user = other ∧ mailbox = mailbox' := by
  constructor
  · intro h
    simp only [mailboxKey, List.append_assoc] at h
    exact keyUser_append_inj (List.append_cancel_left h)
  · rintro ⟨rfl, rfl⟩
    rfl

theorem messagesBucket_inj : messagesBucket user mailbox = messagesBucket other mailbox' ↔
      user = other ∧ mailbox = mailbox' := by
  constructor
  · intro h
    simp only [messagesBucket, List.append_assoc] at h
    exact keyUser_append_inj (List.append_cancel_left h)
  · rintro ⟨rfl, rfl⟩
    rfl

-- The prefix of all keys of a user.
def mailboxPrefix (user : Bytes) : Bytes := bytes "mailbox:" ++ keyUser user ++ [colon]

def messagesPrefix (user : Bytes) : Bytes := bytes "msgs:" ++ keyUser user ++ [colon]

theorem mailboxPrefix_isPrefixOf :
    (mailboxPrefix user).isPrefixOf (mailboxKey other mailbox) = true ↔ user = other := by
  rw [List.isPrefixOf_iff_prefix]
  constructor
  · rintro ⟨rest, h⟩
    simp only [mailboxPrefix, List.append_assoc] at h
    exact (keyUser_append_inj (List.append_cancel_left h)).1
  · rintro rfl
    exact ⟨mailbox, by simp [mailboxPrefix, mailboxKey]⟩

theorem messagesPrefix_isPrefixOf :
    (messagesPrefix user).isPrefixOf (messagesBucket other mailbox) = true ↔ user = other := by
  rw [List.isPrefixOf_iff_prefix]
  constructor
  · rintro ⟨rest, h⟩
    simp only [messagesPrefix, List.append_assoc] at h
    exact (keyUser_append_inj (List.append_cancel_left h)).1
  · rintro rfl
    exact ⟨mailbox, by simp [messagesPrefix, messagesBucket]⟩

end UMail.Storage
