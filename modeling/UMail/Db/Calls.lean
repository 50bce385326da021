import UMail.Db.Aliases
import UMail.Library.Sequence
import Mathlib.Algebra.Order.Group.Int

namespace UMail.Db

open Text (CaseTable toLower equalFold trimSpace)
open UMail.Storage (colon)

inductive Op
  | createAccount (account : AccountRow)
  | createAccountInDomain (account : AccountRow)
  | updateAccount (account : AccountRow)
  | mutateAccount (domain localPart : Text) (fn : AccountRow → Option AccountRow)
  | mutateAccountKeepAdmin (domain localPart : Text) (fn : AccountRow → Option AccountRow)
  | incrementQuota (domain localPart : Text) (delta : Int)
  | consumeTOTPStep (domain localPart : Text) (expectedLast newStep : Int)
  | deleteAccount (domain localPart : Text)
  | deleteAccountKeepAdmin (domain localPart : Text)
  | createDomain (domain : DomainData)
  | deleteDomain (name : Text)
  | deleteDomainKeepAdmin (name : Text)
  | createAlias (row : AliasData)
  | updateAlias (row : AliasData)
  | deleteAlias (domain localPart : Text)

structure Call where
  op : Op
  fault : Bool

def Call.exec (table : CaseTable) (call : Call) (db : Directory) :
    Except DirectoryError Unit × Directory :=
  match call.op with
  | .createAccount account => db.createAccount table call.fault account
  | .createAccountInDomain account => db.createAccountInDomain table call.fault account
  | .updateAccount account => (db.updateAccount call.fault account).map (.map fun _ => ()) id
  | .mutateAccount domain localPart fn =>
    (db.mutateAccount call.fault domain localPart fn).map (.map fun _ => ()) id
  | .mutateAccountKeepAdmin domain localPart fn =>
    (db.mutateAccountKeepAdmin call.fault domain localPart fn).map (.map fun _ => ()) id
  | .incrementQuota domain localPart delta => db.incrementQuota call.fault domain localPart delta
  | .consumeTOTPStep domain localPart expectedLast newStep =>
    (db.consumeTOTPStep call.fault domain localPart expectedLast newStep).map (.map fun _ => ()) id
  | .deleteAccount domain localPart => db.deleteAccount table call.fault domain localPart
  | .deleteAccountKeepAdmin domain localPart =>
    db.deleteAccountKeepAdmin table call.fault domain localPart
  | .createDomain domain => db.createDomain table call.fault domain
  | .deleteDomain name => db.deleteDomain table call.fault name
  | .deleteDomainKeepAdmin name => db.deleteDomainKeepAdmin table call.fault name
  | .createAlias row => db.createAlias table call.fault row
  | .updateAlias row => db.updateAlias table call.fault row
  | .deleteAlias domain localPart => db.deleteAlias table call.fault domain localPart

def Call.apply (table : CaseTable) (call : Call) (db : Directory) : Directory :=
  (call.exec table db).2

abbrev run (table : CaseTable) (calls : List Call) (db : Directory) : Directory :=
  Sequence.run (Call.apply table) calls db

theorem run_append (table : CaseTable) (calls later : List Call) (db : Directory) :
    run table (calls ++ later) db = run table later (run table calls db) :=
  Sequence.run_append calls later db

-- All that a call can do to the directory, and what it has checked before.
inductive Change (table : CaseTable) (db : Directory) : Op → Directory → Prop
  | kept {op : Op} : Change table db op db
  | accountCreated {op : Op} {account : AccountRow}
      (hop : op = .createAccount account ∨ op = .createAccountInDomain account)
      (hvalid : validAccountNames account.domain account.localPart = true)
      (hfree : hasKeyFold table db.accounts (accountKey account.domain account.localPart) = false)
      (hshadow : accountShadowsAlias table db account.domain account.localPart = false) :
      Change table db op (db.putAccount (accountKey account.domain account.localPart) account)
  | accountUpdated {account stored : AccountRow}
      (hstored : db.getAccount account.domain account.localPart = some stored) :
      Change table db (.updateAccount account)
        (db.putAccount (accountKey account.domain account.localPart) (stored.carryOver account))
  | accountMutated {domain localPart : Text} {fn : AccountRow → Option AccountRow}
      {stored account : AccountRow} (hstored : db.getAccount domain localPart = some stored)
      (hfn : fn stored = some account) :
      Change table db (.mutateAccount domain localPart fn)
        (db.putAccount (accountKey domain localPart) (stored.restore account))
  | accountMutatedKeepAdmin {domain localPart : Text} {fn : AccountRow → Option AccountRow}
      {stored account : AccountRow} (hstored : db.getAccount domain localPart = some stored)
      (hfn : fn stored = some account)
      (hguard : stored.activeAdmin = true → account.activeAdmin = true ∨
        otherActiveAdminTx db (fun other =>
          other.domain == stored.domain && other.localPart == stored.localPart) = true) :
      Change table db (.mutateAccountKeepAdmin domain localPart fn)
        (db.putAccount (accountKey domain localPart) (stored.restore account))
  | quotaMoved {domain localPart : Text} {delta : Int} {account : AccountRow} {data : AccountData}
      (hstored : db.getAccount domain localPart = some account)
      (hquota : account.toAccountData.incrementQuota delta = .ok data) :
      Change table db (.incrementQuota domain localPart delta)
        (db.putAccount (accountKey domain localPart) { account with quotaUsed := data.quotaUsed })
  | stepConsumed {domain localPart : Text} {newStep : Int} {account : AccountRow}
      (hstored : db.getAccount domain localPart = some account)
      (hstep : account.totpLastUsedStep < newStep) :
      Change table db (.consumeTOTPStep domain localPart account.totpLastUsedStep newStep)
        (db.putAccount (accountKey domain localPart) { account with totpLastUsedStep := newStep })
  | accountDropped {domain localPart : Text} :
      Change table db (.deleteAccount domain localPart) (db.dropAccount table domain localPart)
  | accountDroppedKeepAdmin {domain localPart : Text} {account : AccountRow}
      (hstored : db.getAccount domain localPart = some account)
      (hguard : account.activeAdmin = true → otherActiveAdminTx db (fun other =>
        other.domain == domain && other.localPart == localPart) = true) :
      Change table db (.deleteAccountKeepAdmin domain localPart)
        (db.dropAccount table domain localPart)
  | domainCreated {domain : DomainData} (hvalid : validName domain.name [slash, colon] = true)
      (hfree : hasKeyFold table db.domains domain.name = false) :
      Change table db (.createDomain domain)
        { db with domains := db.domains.insert domain.name domain.marshal }
  | domainDropped {name : Text} : Change table db (.deleteDomain name) (db.dropDomain table name)
  | domainDroppedKeepAdmin {name : Text}
      (hguard : (db.accounts.toList.any fun entry =>
          entry.2.activeAdmin && equalFold table entry.2.domain name) = true →
        otherActiveAdminTx db (fun account => equalFold table account.domain name) = true) :
      Change table db (.deleteDomainKeepAdmin name) (db.dropDomain table name)
  | aliasCreated {row : AliasData} (hdomain : validName row.domain [slash, colon] = true)
      (hname : validName row.aliasName [slash] = true)
      (hlocal : hasKeyFold table db.domains row.domain = true)
      (hfree : hasKeyFold table db.aliases (row.key table) = false)
      (hshadow : hasKeyFold table db.accounts (accountKey row.domain row.aliasName) = false)
      (hcycle : aliasCycleTx table db (row.key table) row.target = false) :
      Change table db (.createAlias row) (db.putAlias table row)
  | aliasUpdated {row : AliasData} (hstored : row.key table ∈ db.aliases)
      (hcycle : aliasCycleTx table db (row.key table) row.target = false) :
      Change table db (.updateAlias row) (db.putAlias table row)
  | aliasDropped {domain localPart : Text} : Change table db (.deleteAlias domain localPart)
      { db with aliases := db.aliases.erase (aliasKey table domain localPart) }

section Calls

variable {table : CaseTable} {db : Directory} (fault : Bool) (account : AccountRow)
  (domain localPart : Text) {α : Type}

theorem update_cases {fault : Bool} {tx : Directory → Except DirectoryError (α × Directory)}
    {motive : Directory → Prop} (hkept : motive db)
    (hdone : ∀ value db', tx db = .ok (value, db') → motive db') :
    motive (db.update fault tx).2 := by
  unfold Directory.update
  split_ifs
  · exact hkept
  · cases htx : tx db with
    | error e => exact hkept
    | ok out => exact hdone out.1 out.2 htx

def Atomic (db : Directory) (outcome : Except DirectoryError α × Directory) : Prop :=
  ∀ e, outcome.1 = .error e → outcome.2 = db

theorem atomic_refused {e : DirectoryError} :
    Atomic db ((.error e, db) : Except DirectoryError α × Directory) := fun _ _ => rfl

theorem atomic_update {fault : Bool}
    {tx : Directory → Except DirectoryError (α × Directory)} : Atomic db (db.update fault tx) := by
  intro e h
  unfold Directory.update at h ⊢
  split_ifs at h ⊢
  · rfl
  cases htx : tx db with
  | error e => rfl
  | ok out =>
    rw [htx] at h
    cases h

theorem Atomic.map {α β : Type} {f : α → β} {outcome : Except DirectoryError α × Directory}
    (h : Atomic db outcome) : Atomic db (outcome.map (.map f) id) := by
  intro e he
  obtain ⟨answer, after⟩ := outcome
  cases answer with
  | error e' => exact h e' rfl
  | ok value => cases he

theorem createAccount_change :
    Change table db (.createAccount account) (db.createAccount table fault account).2 := by
  unfold Directory.createAccount
  split_ifs with hvalid
  · refine update_cases .kept fun value db' h => ?_
    simp only [createAccountTx, Bool.or_eq_true] at h
    split_ifs at h with hfree
    cases h
    simp only [not_or, Bool.not_eq_true] at hfree
    exact .accountCreated (.inl rfl) hvalid hfree.1 hfree.2
  · exact .kept

theorem createAccountInDomain_change : Change table db (.createAccountInDomain account)
      (db.createAccountInDomain table fault account).2 := by
  unfold Directory.createAccountInDomain
  split_ifs with hvalid
  · refine update_cases .kept fun value db' h => ?_
    simp only [createAccountInDomainTx, Bool.or_eq_true] at h
    split at h
    · cases h
    split_ifs at h with hfree
    cases h
    simp only [not_or, Bool.not_eq_true] at hfree
    exact .accountCreated (.inr rfl) hvalid hfree.1 hfree.2
  · exact .kept

theorem updateAccount_change :
    Change table db (.updateAccount account) (db.updateAccount fault account).2 := by
  refine update_cases .kept fun value db' h => ?_
  simp only [updateAccountTx] at h
  split at h
  · cases h
  · rename_i stored hstored
    cases h
    exact .accountUpdated hstored

theorem mutateAccountTx_eq_ok {domain localPart : Text} {keepAdmin : Bool}
    {fn : AccountRow → Option AccountRow} {value : AccountRow} {db' : Directory}
    (h : mutateAccountTx domain localPart keepAdmin fn db = .ok (value, db')) :
    ∃ stored account, db.getAccount domain localPart = some stored ∧ fn stored = some account ∧
      db' = db.putAccount (accountKey domain localPart) (stored.restore account) ∧
      (keepAdmin = true → stored.activeAdmin = true → account.activeAdmin = true ∨
        otherActiveAdminTx db (fun other =>
          other.domain == stored.domain && other.localPart == stored.localPart) = true) := by
  simp only [mutateAccountTx] at h
  split at h
  · cases h
  rename_i stored hstored
  split at h
  · cases h
  rename_i account hfn
  split_ifs at h with hguard
  cases h
  refine ⟨stored, account, hstored, hfn, rfl, fun hkeep hadmin => ?_⟩
  by_contra hother
  simp_all

theorem mutateAccount_change (fn : AccountRow → Option AccountRow) :
    Change table db (.mutateAccount domain localPart fn)
      (db.mutateAccount fault domain localPart fn).2 := by
  refine update_cases .kept fun value db' h => ?_
  obtain ⟨stored, account, hstored, hfn, rfl, _⟩ := mutateAccountTx_eq_ok h
  exact .accountMutated hstored hfn

theorem mutateAccountKeepAdmin_change (fn : AccountRow → Option AccountRow) :
    Change table db (.mutateAccountKeepAdmin domain localPart fn)
      (db.mutateAccountKeepAdmin fault domain localPart fn).2 := by
  refine update_cases .kept fun value db' h => ?_
  obtain ⟨stored, account, hstored, hfn, rfl, hguard⟩ := mutateAccountTx_eq_ok h
  exact .accountMutatedKeepAdmin hstored hfn (hguard rfl)

theorem incrementQuota_change (delta : Int) :
    Change table db (.incrementQuota domain localPart delta)
      (db.incrementQuota fault domain localPart delta).2 := by
  refine update_cases .kept fun value db' h => ?_
  simp only [incrementQuotaTx] at h
  split at h
  · cases h
  rename_i account hstored
  split at h
  · cases h
  · rename_i data hquota
    cases h
    exact .quotaMoved hstored hquota

theorem consumeTOTPStep_change (expectedLast newStep : Int) :
    Change table db (.consumeTOTPStep domain localPart expectedLast newStep)
      (db.consumeTOTPStep fault domain localPart expectedLast newStep).2 := by
  refine update_cases .kept fun value db' h => ?_
  simp only [consumeTOTPStepTx] at h
  split at h
  · cases h
  rename_i account hstored
  split_ifs at h with hstale
  · cases h
    exact .kept
  cases h
  simp only [not_or, not_not, not_le] at hstale
  obtain ⟨rfl, hstep⟩ := hstale
  exact .stepConsumed hstored hstep

theorem deleteAccountKeepAdmin_change : Change table db (.deleteAccountKeepAdmin domain localPart)
      (db.deleteAccountKeepAdmin table fault domain localPart).2 := by
  refine update_cases .kept fun value db' h => ?_
  simp only [deleteAccountKeepAdminTx] at h
  split at h
  · cases h
  rename_i account hstored
  split_ifs at h with hguard
  cases h
  refine .accountDroppedKeepAdmin hstored fun hadmin => ?_
  simp_all

theorem createDomain_change (domain : DomainData) :
    Change table db (.createDomain domain) (db.createDomain table fault domain).2 := by
  unfold Directory.createDomain
  split_ifs with hvalid
  · refine update_cases .kept fun value db' h => ?_
    simp only [createDomainTx] at h
    split_ifs at h with hfree
    cases h
    exact .domainCreated hvalid (by simpa using hfree)
  · exact .kept

theorem deleteDomainKeepAdmin_change (name : Text) :
    Change table db (.deleteDomainKeepAdmin name) (db.deleteDomainKeepAdmin table fault name).2 := by
  refine update_cases .kept fun value db' h => ?_
  simp only [deleteDomainTx] at h
  split_ifs at h with hguard
  cases h
  refine .domainDroppedKeepAdmin fun hinside => ?_
  simp_all

theorem deleteDomain_change (name : Text) :
    Change table db (.deleteDomain name) (db.deleteDomain table fault name).2 := by
  refine update_cases .kept fun value db' h => ?_
  cases h
  exact .domainDropped

theorem createAlias_change (row : AliasData) :
    Change table db (.createAlias row) (db.createAlias table fault row).2 := by
  unfold Directory.createAlias
  split_ifs with hvalid hself
  · exact .kept
  · exact .kept
  · refine update_cases .kept fun value db' h => ?_
    simp only [createAliasTx] at h
    split_ifs at h with hlocal hfree hshadow hcycle
    cases h
    simp only [Bool.or_eq_true, Bool.not_eq_true', not_or, Bool.not_eq_false] at hvalid hlocal
    exact .aliasCreated hvalid.1 hvalid.2 hlocal (by simpa using hfree) (by simpa using hshadow)
      (by simpa using hcycle)

theorem updateAlias_change (row : AliasData) :
    Change table db (.updateAlias row) (db.updateAlias table fault row).2 := by
  unfold Directory.updateAlias
  split_ifs with hself
  · exact .kept
  refine update_cases .kept fun value db' h => ?_
  simp only [updateAliasTx] at h
  split_ifs at h with hstored hcycle
  cases h
  exact .aliasUpdated (by simpa using hstored) (by simpa using hcycle)

theorem Call.change (table : CaseTable) (call : Call) (db : Directory) :
    Change table db call.op (call.apply table db) := by
  obtain ⟨op, fault⟩ := call
  cases op with
  | createAccount account => exact createAccount_change fault account
  | createAccountInDomain account => exact createAccountInDomain_change fault account
  | updateAccount account => exact updateAccount_change fault account
  | mutateAccount domain localPart fn => exact mutateAccount_change fault domain localPart fn
  | mutateAccountKeepAdmin domain localPart fn =>
    exact mutateAccountKeepAdmin_change fault domain localPart fn
  | incrementQuota domain localPart delta => exact incrementQuota_change fault domain localPart delta
  | consumeTOTPStep domain localPart expectedLast newStep =>
    exact consumeTOTPStep_change fault domain localPart expectedLast newStep
  | deleteAccount domain localPart =>
    refine update_cases .kept fun value db' h => ?_
    cases h
    exact .accountDropped
  | deleteAccountKeepAdmin domain localPart => exact deleteAccountKeepAdmin_change fault domain localPart
  | createDomain domain => exact createDomain_change fault domain
  | deleteDomain name => exact deleteDomain_change fault name
  | deleteDomainKeepAdmin name => exact deleteDomainKeepAdmin_change fault name
  | createAlias row => exact createAlias_change fault row
  | updateAlias row => exact updateAlias_change fault row
  | deleteAlias domain localPart =>
    refine update_cases .kept fun value db' h => ?_
    cases h
    exact .aliasDropped

theorem Call.apply_of_error {call : Call} {e : DirectoryError}
    (h : (call.exec table db).1 = .error e) : call.apply table db = db := by
  suffices hatomic : Atomic db (call.exec table db) from hatomic e h
  obtain ⟨op, fault⟩ := call
  cases op with
  | createAccount | createAccountInDomain =>
    simp only [Call.exec, Directory.createAccount, Directory.createAccountInDomain]
    split_ifs
    · exact atomic_update
    · exact atomic_refused
  | updateAccount | mutateAccount | mutateAccountKeepAdmin | consumeTOTPStep =>
    exact atomic_update.map
  | incrementQuota | deleteAccount | deleteAccountKeepAdmin | deleteDomain | deleteDomainKeepAdmin
  | deleteAlias => exact atomic_update
  | createDomain domain =>
    simp only [Call.exec, Directory.createDomain]
    split_ifs
    · exact atomic_update
    · exact atomic_refused
  | createAlias row =>
    simp only [Call.exec, Directory.createAlias]
    split_ifs
    · exact atomic_refused
    · exact atomic_refused
    · exact atomic_update
  | updateAlias row =>
    simp only [Call.exec, Directory.updateAlias]
    split_ifs
    · exact atomic_refused
    · exact atomic_update

end Calls

end UMail.Db
