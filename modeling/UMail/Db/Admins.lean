import UMail.Db.Rows

namespace UMail.Db

open Std (ExtTreeMap)
open Text (CaseTable equalFold)
open UMail.Storage (bytes)
open Utf8 (validText)

def HasActiveAdmin (db : Directory) : Prop :=
  ∃ (key : Text) (row : AccountRow), db.accounts[key]? = some row ∧ row.activeAdmin = true

-- The calls that keep an administrator, and those that have none to lose.
def Op.keepsAdmin : Op → Bool
  | .createAccount _ | .createAccountInDomain _ | .mutateAccountKeepAdmin _ _ _
  | .deleteAccountKeepAdmin _ _ | .deleteDomainKeepAdmin _ | .incrementQuota _ _ _
  | .consumeTOTPStep _ _ _ _ | .createDomain _ | .createAlias _ | .updateAlias _
  | .deleteAlias _ _ => true
  | .updateAccount _ | .mutateAccount _ _ _ | .deleteAccount _ _ | .deleteDomain _ => false

def soleAdmin (localPart : Text) : AccountRow :=
  { isActive := true, quotaUsed := 0, quotaLimit := 0, localPart := localPart,
    domain := bytes "d", isAdmin := true, totpLastUsedStep := 0, tokensValidAfter := 0,
    lastLoginAt := 0 }

-- The row of the account has another name than its key, and is taken for
-- another administrator.
theorem activeAdmin_fails_replaced : ¬ ∀ (table : CaseTable) (before after : List Call),
    (∀ call ∈ after, call.op.keepsAdmin = true) → HasActiveAdmin (run table before .empty) →
      HasActiveAdmin (run table (before ++ after) .empty) := by
  intro h
  obtain ⟨key, row, hrow, -⟩ := h Text.latin [⟨.createAccount (soleAdmin [114, 255]), false⟩]
    [⟨.deleteAccountKeepAdmin (bytes "d") [114, 255], false⟩] (by decide)
    ⟨bytes "d/r" ++ [255], (soleAdmin [114, 255]).marshal, by decide, rfl⟩
  have hnone : (run Text.latin [⟨.createAccount (soleAdmin [114, 255]), false⟩,
      ⟨.deleteAccountKeepAdmin (bytes "d") [114, 255], false⟩] .empty).accounts.toList = [] := by decide
  have hmem := ExtTreeMap.mem_toList_iff_getElem?_eq_some.mpr hrow
  rw [List.cons_append, List.nil_append, hnone] at hmem
  cases hmem

-- The names of a deleted account are UTF-8, and so those of its row.
def Op.keepsText : Op → Bool
  | .deleteAccountKeepAdmin domain localPart => validText domain == domain && validText localPart == localPart
  | _ => true

section Guards

variable {table : CaseTable} {db db' : Directory} {skip : AccountRow → Bool}

theorem otherActiveAdminTx_iff : otherActiveAdminTx db skip = true ↔
      ∃ (key : Text) (row : AccountRow), db.accounts[key]? = some row ∧ row.activeAdmin = true ∧
        skip row = false := by
  simp only [otherActiveAdminTx, List.any_eq_true, Prod.exists,
    ExtTreeMap.mem_toList_iff_getElem?_eq_some, Bool.and_eq_true, Bool.not_eq_true']

-- A new row, or one that is as much of an administrator as the one it replaces.
theorem HasActiveAdmin.put (h : HasActiveAdmin db) {key : Text} {row : AccountRow}
    (hrow : ∀ stored, db.accounts[key]? = some stored → stored.activeAdmin = true →
      row.activeAdmin = true) : HasActiveAdmin (db.putAccount key row) := by
  obtain ⟨k, admin, hadmin, hactive⟩ := h
  by_cases hkey : key = k
  · subst hkey
    exact ⟨key, row.marshal, by rw [accounts_putAccount, if_pos rfl], hrow admin hadmin hactive⟩
  · exact ⟨k, admin, by rw [accounts_putAccount, if_neg hkey, hadmin], hactive⟩

theorem HasActiveAdmin.of_other (key : Text) (hother : otherActiveAdminTx db skip = true)
    (hskip : ∀ row, db.accounts[key]? = some row → skip row = true)
    (hkept : ∀ (k : Text) (row : AccountRow), key ≠ k → db.accounts[k]? = some row →
      db'.accounts[k]? = some row) :
    HasActiveAdmin db' := by
  obtain ⟨k, row, hrow, hactive, hfree⟩ := otherActiveAdminTx_iff.mp hother
  refine ⟨k, row, hkept k row ?_ hrow, hactive⟩
  rintro rfl
  rw [hskip row hrow] at hfree
  cases hfree

-- The accounts that go with a domain are those of the domain, but for case.
theorem equalFold_of_matchesFold {name domain localPart : Text}
    (hvalid : validAccountNames domain localPart = true)
    (h : matchesFold table (accountKey name []) false (accountKey domain localPart) = true) :
    equalFold table (validText domain) name = true := by
  simp only [matchesFold, Bool.and_eq_true] at h
  obtain ⟨head, tail, hsplit, hfold⟩ := Text.take_separator (by decide) h.1.2
  rw [(accountKey_inj hvalid hsplit.symm).1] at hfold
  rwa [Text.equalFold_iff, Utf8.runes_validText, ← Text.equalFold_iff]

theorem HasActiveAdmin.dropDomain (h : HasActiveAdmin db) (hnamed : Named db) {name : Text}
    (hguard : (db.accounts.toList.any fun entry =>
        entry.2.activeAdmin && equalFold table entry.2.domain name) = true →
      otherActiveAdminTx db (fun account => equalFold table account.domain name) = true) :
    HasActiveAdmin (db.dropDomain table name) := by
  have houtside : ∀ (key : Text) (row : AccountRow), db.accounts[key]? = some row →
      equalFold table row.domain name = false → (db.dropDomain table name).accounts[key]? = some row := by
    intro key row hrow hfold
    obtain ⟨domain, localPart, rfl, hvalid, hdomain, -⟩ := hnamed key row hrow
    rw [accounts_dropDomain, hrow, Option.filter_some]
    by_contra hmatch
    rw [hdomain, equalFold_of_matchesFold hvalid (by simpa using hmatch)] at hfold
    cases hfold
  obtain ⟨key, row, hrow, hactive⟩ := h
  cases hfold : equalFold table row.domain name with
  | false => exact ⟨key, row, houtside key row hrow hfold, hactive⟩
  | true =>
    have hinside : (db.accounts.toList.any fun entry =>
        entry.2.activeAdmin && equalFold table entry.2.domain name) = true :=
      List.any_eq_true.mpr ⟨(key, row), ExtTreeMap.mem_toList_iff_getElem?_eq_some.mpr hrow,
        by simp [hactive, hfold]⟩
    obtain ⟨k, other, hother, hactive', hfree⟩ := otherActiveAdminTx_iff.mp (hguard hinside)
    exact ⟨k, other, houtside k other hother hfree, hactive'⟩

theorem HasActiveAdmin.change (h : HasActiveAdmin db) (hnamed : Named db) {op : Op}
    (hop : op.keepsAdmin = true) (htext : op.keepsText = true) (hchange : Change table db op db') :
    HasActiveAdmin db' := by
  cases hchange with
  | kept => exact h
  | @accountCreated _ account _ _ hfree =>
    refine h.put fun stored hstored => ?_
    have hself := hasKeyFold_eq_false.mp hfree _ (ExtTreeMap.mem_iff_isSome_getElem?.mpr
      (by rw [hstored]; rfl))
    simp [equalFold] at hself
  | @accountMutatedKeepAdmin domain localPart fn stored account hstored _ hguard =>
    by_cases hadmin : stored.activeAdmin = true
    · rcases hguard hadmin with haccount | hother
      · exact h.put fun _ _ _ => haccount
      · refine HasActiveAdmin.of_other (accountKey domain localPart) hother ?_ ?_
        · intro row hrow
          cases hrow.symm.trans hstored
          simp
        · intro k row hkey hrow
          rw [accounts_putAccount, if_neg hkey, hrow]
    · refine h.put fun row hrow hactive => ?_
      cases hrow.symm.trans hstored
      exact absurd hactive hadmin
  | quotaMoved hstored | stepConsumed hstored =>
    refine h.put fun row hrow hactive => ?_
    cases hrow.symm.trans hstored
    exact hactive
  | @accountDroppedKeepAdmin domain localPart account hstored hguard =>
    have hkept : ∀ (k : Text) (row : AccountRow), accountKey domain localPart ≠ k →
        db.accounts[k]? = some row → (db.dropAccount table domain localPart).accounts[k]? = some row := by
      intro k row hkey hrow
      rw [accounts_dropAccount, if_neg hkey, hrow]
    by_cases hadmin : account.activeAdmin = true
    · refine HasActiveAdmin.of_other (accountKey domain localPart) (hguard hadmin) ?_ hkept
      intro row hrow
      obtain ⟨-, hdomain, hlocal⟩ := hnamed.of_key hrow
      rwa [hdomain, hlocal]
    · obtain ⟨k, admin, hrow, hactive⟩ := h
      refine ⟨k, admin, hkept k admin ?_ hrow, hactive⟩
      rintro rfl
      cases hrow.symm.trans hstored
      exact hadmin hactive
  | domainDroppedKeepAdmin hguard => exact h.dropDomain hnamed hguard
  | domainCreated | aliasCreated | aliasUpdated | aliasDropped => exact h
  | _ => cases hop

end Guards

-- A directory that has had an active administrator has one, as long as every
-- call keeps one, and a call that fails changes no account and no domain.
theorem activeAdmin_kept (table : CaseTable) (before after : List Call)
    (hops : ∀ call ∈ after, call.op.keepsAdmin = true)
    (htexts : ∀ call ∈ after, call.op.keepsText = true) :
    (HasActiveAdmin (run table before .empty) →
      HasActiveAdmin (run table (before ++ after) .empty)) ∧
    ∀ call e, (Call.exec table call (run table (before ++ after) .empty)).1 = .error e →
      (call.apply table (run table (before ++ after) .empty)).accounts =
          (run table (before ++ after) .empty).accounts ∧
        (call.apply table (run table (before ++ after) .empty)).domains =
          (run table (before ++ after) .empty).domains := by
  constructor
  · intro hadmin
    induction after using List.reverseRecOn with
    | nil => rwa [List.append_nil]
    | append_singleton after call ih =>
      rw [← List.append_assoc, run_append]
      exact (ih (fun other h => hops other (List.mem_append_left _ h)) fun other h =>
        htexts other (List.mem_append_left _ h)).change named_run (hops call (by simp))
        (htexts call (by simp)) (call.change table _)
  · intro call e he
    rw [Call.apply_of_error he]
    exact ⟨rfl, rfl⟩

def attempts : List Call :=
  [⟨.mutateAccountKeepAdmin (bytes "d") (bytes "root") fun a => some { a with isAdmin := false }, false⟩,
    ⟨.deleteAccountKeepAdmin (bytes "d") (bytes "root"), false⟩,
    ⟨.deleteDomainKeepAdmin (bytes "D"), false⟩]

theorem activeAdmin_kept_sole : HasActiveAdmin
    (run Text.latin ([⟨.createAccount (soleAdmin (bytes "root")), false⟩] ++ attempts) .empty) :=
  (activeAdmin_kept Text.latin [⟨.createAccount (soleAdmin (bytes "root")), false⟩] attempts (by decide)
    (by decide)).1 ⟨bytes "d/root", soleAdmin (bytes "root"), by decide, rfl⟩

end UMail.Db
