import UMail.Imap.Literals.Theorems
import UMail.Imap.Rename
import UMail.Imap.Utf7.Theorems

namespace UMail.Imap

open UMail.Storage (Bytes bytes equalFold toUpper)
open Utf8 (validString)

def joinQuoted (names : List Bytes) : Bytes := [32].intercalate (names.map quoteMailbox)

-- The arguments as a command takes them: decoded, and with one spelling of INBOX.
def mailboxArgs (rest : Bytes) : List (Option Bytes) :=
  (splitQuotedArgs rest).map fun arg => (decodeMUTF7 arg).map canonMailbox

theorem joinQuoted_cons (name : Bytes) (names : List Bytes) :
    joinQuoted (name :: names) = quoteMailbox name ++ names.flatMap (32 :: quoteMailbox ·) := by
  induction names generalizing name with
  | nil => simp [joinQuoted]
  | cons next names ih =>
    have hrest := ih next
    unfold joinQuoted at hrest ⊢
    rw [List.map_cons, List.map_cons, List.intercalate_cons_cons, ← List.map_cons, hrest]
    simp

theorem splitQuotedArgs_joinQuoted (names : List Bytes) : splitQuotedArgs (joinQuoted names) = names := by
  rcases names with _ | ⟨name, names⟩
  · rfl
  have hargs := @splitArgs_foldedArgs ((name :: names).map (⟨·, .quoted⟩)) (by simp) _ le_rfl
  have hfolded : foldedArgs ((name :: names).map (⟨·, .quoted⟩)) = 32 :: joinQuoted (name :: names) := by
    simp [joinQuoted_cons, foldedArgs, Argument.folded, List.flatMap_map]
  rw [hfolded, List.length_cons] at hargs
  refine Eq.trans ?_ (hargs.trans (by simp [Function.comp_def]))
  rfl

theorem trailingLiteral_joinQuoted (names : List Bytes) : trailingLiteral (joinQuoted names) = none := by
  rcases List.eq_nil_or_concat' names with rfl | ⟨names, last, rfl⟩
  · rfl
  rcases names with _ | ⟨name, names⟩
  · simpa [joinQuoted] using trailingLiteral_quoted [] last
  rw [List.cons_append, joinQuoted_cons, List.flatMap_append, List.flatMap_singleton, ← List.append_assoc,
    ← List.singleton_append, ← List.append_assoc]
  exact trailingLiteral_quoted _ last

theorem mailboxArgs_fails_inbox : ¬ ∀ names : List Bytes,
    (∀ name ∈ names, validString name = true ∧ ∀ c ∈ name, c ≠ 0 ∧ isLineEnd c = false) →
      (splitQuotedArgs (joinQuoted names)).map canonMailbox = names := by
  intro h
  exact absurd (h [bytes "inbox"] (by decide +kernel)) (by decide)

-- Where the first level is INBOX in some case, it is in capitals.
def CanonicalName (name : Bytes) : Prop :=
  ∀ inbox rest, name = inbox ++ rest → equalFold inbox (bytes "INBOX") = true →
    rest = [] ∨ rest.head? = some slash → inbox = bytes "INBOX"

theorem canonMailbox_eq_self {name : Bytes} : canonMailbox name = name ↔ CanonicalName name := by
  constructor
  · rintro h inbox rest rfl hfold hrest
    have hlength : inbox.length = 5 := by
      have hmap := congrArg List.length (beq_iff_eq.mp hfold)
      rwa [toUpper, toUpper, List.length_map, List.length_map] at hmap
    have hcanon : canonMailbox (inbox ++ rest) = bytes "INBOX" ++ rest := by
      rw [canonMailbox, if_pos, ← hlength, List.drop_left]
      rw [← hlength, List.take_left, hfold]
      rcases hrest with rfl | hrest
      · simp
      · simp [List.getElem?_append_right, ← List.head?_eq_getElem?, hrest]
    exact (List.append_cancel_right (hcanon.symm.trans h)).symm
  · intro h
    rw [canonMailbox, ite_eq_right_iff, Bool.and_eq_true, Bool.and_eq_true, Bool.or_eq_true]
    rintro ⟨⟨hlength, hfold⟩, hrest⟩
    rw [← h (name.take 5) (name.drop 5) (List.take_append_drop 5 name).symm hfold, List.take_append_drop]
    rw [List.drop_eq_nil_iff, List.head?_drop]
    exact hrest.imp (fun h => (of_decide_eq_true h).le) of_decide_eq_true

-- The names come back, and a command reads them as they are if they are canonical.
theorem mailboxArgs_joinQuoted (names : List Bytes) :
    splitQuotedArgs (joinQuoted names) = names ∧
      ((splitQuotedArgs (joinQuoted names)).map canonMailbox = names ↔ ∀ name ∈ names, CanonicalName name) ∧
      ((∀ name ∈ names, validString name = true) →
        mailboxArgs (joinQuoted (names.map encodeMUTF7)) = names.map (some ∘ canonMailbox)) ∧
      trailingLiteral (joinQuoted names) = none ∧
      trailingLiteral (joinQuoted (names.map encodeMUTF7)) = none := by
  refine ⟨splitQuotedArgs_joinQuoted names, ?_, fun h => ?_, trailingLiteral_joinQuoted _,
    trailingLiteral_joinQuoted _⟩
  · rw [splitQuotedArgs_joinQuoted]
    conv_lhs => rhs; rw [← List.map_id names]
    simp only [List.map_inj_left, id_eq, canonMailbox_eq_self]
  · rw [mailboxArgs, splitQuotedArgs_joinQuoted, List.map_map]
    refine List.map_congr_left fun name hname => ?_
    rw [Function.comp_apply, decodeMUTF7_encodeMUTF7 (h name hname)]
    rfl

theorem mailboxArgs_joinQuoted_braces :
    mailboxArgs (joinQuoted ([bytes "inBox/a \"b\"", [], bytes "\\\x7b3\x7d"].map encodeMUTF7)) =
      [some (bytes "INBOX/a \"b\""), some [], some (bytes "\\\x7b3\x7d")] := by
  have hargs := (mailboxArgs_joinQuoted [bytes "inBox/a \"b\"", [], bytes "\\\x7b3\x7d"]).2.2.1 (by decide)
  rw [hargs]
  decide

end UMail.Imap
