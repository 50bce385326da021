import UMail.Db.Directory

namespace UMail.Db

open Text (CaseTable toLower equalFold trimSpace)
open UMail.Storage (colon)

variable (table : CaseTable) (fault : Bool) (db : Directory) (domain localPart : Text)
  (account : AccountRow) (fn : AccountRow → Option AccountRow) (name : Text)

def Directory.putAccount (key : Text) (account : AccountRow) : Directory :=
  { db with accounts := db.accounts.insert key account.marshal }

def createAccountTx (db : Directory) : Except DirectoryError (Unit × Directory) :=
  let key := accountKey account.domain account.localPart
  if hasKeyFold table db.accounts key ||
      accountShadowsAlias table db account.domain account.localPart then .error .accountExists
  else .ok ((), db.putAccount key account)

def Directory.createAccount : Except DirectoryError Unit × Directory :=
  if validAccountNames account.domain account.localPart
    then db.update fault (createAccountTx table account)
    else (.error (.invalidName [account.domain, account.localPart]), db)

def accountCount (domain : Text) : Nat :=
  let start := accountKey domain []
  ((db.accounts.keys.dropWhile fun k => compare k start == .lt).takeWhile start.isPrefixOf).length

def createAccountInDomainTx (db : Directory) : Except DirectoryError (Unit × Directory) :=
  let key := accountKey account.domain account.localPart
  match db.domains[account.domain]? with
  | none => .error .domainNotFound
  | some domain =>
    if hasKeyFold table db.accounts key ||
        accountShadowsAlias table db account.domain account.localPart then .error .accountExists
    else if domain.maxAccounts > 0 ∧ (accountCount db account.domain : Int) ≥ domain.maxAccounts then
      .error .domainAccountLimit
    else .ok ((), db.putAccount key account)

def Directory.createAccountInDomain : Except DirectoryError Unit × Directory :=
  if validAccountNames account.domain account.localPart
    then db.update fault (createAccountInDomainTx table account)
    else (.error (.invalidName [account.domain, account.localPart]), db)

-- What a snapshot may not overwrite: the usage, and the times and steps that
-- only move forward.
def AccountRow.carryOver (stored account : AccountRow) : AccountRow :=
  { account with
    quotaUsed := stored.quotaUsed
    totpLastUsedStep :=
      if stored.totpLastUsedStep > account.totpLastUsedStep then stored.totpLastUsedStep
      else account.totpLastUsedStep
    lastLoginAt :=
      if stored.lastLoginAt > account.lastLoginAt then stored.lastLoginAt else account.lastLoginAt
    tokensValidAfter :=
      if stored.tokensValidAfter > account.tokensValidAfter then stored.tokensValidAfter
      else account.tokensValidAfter }

def updateAccountTx (db : Directory) : Except DirectoryError (AccountRow × Directory) :=
  let key := accountKey account.domain account.localPart
  match db.accounts[key]? with
  | none => .error .accountNotFound
  | some stored => .ok (stored.carryOver account, db.putAccount key (stored.carryOver account))

def Directory.updateAccount : Except DirectoryError AccountRow × Directory :=
  db.update fault (updateAccountTx account)

def AccountRow.activeAdmin : Bool := account.isAdmin && account.isActive

def otherActiveAdminTx (skip : AccountRow → Bool) : Bool :=
  db.accounts.toList.any fun entry => entry.2.activeAdmin && !skip entry.2

-- The name of a row never changes, and neither does its usage. The step and the
-- cut-off of the sessions only move forward.
def AccountRow.restore (stored account : AccountRow) : AccountRow :=
  { account with
    domain := stored.domain
    localPart := stored.localPart
    quotaUsed := stored.quotaUsed
    totpLastUsedStep :=
      if account.totpLastUsedStep < stored.totpLastUsedStep then stored.totpLastUsedStep
      else account.totpLastUsedStep
    tokensValidAfter :=
      if account.tokensValidAfter < stored.tokensValidAfter then stored.tokensValidAfter
      else account.tokensValidAfter }

-- The callback answers the changed account, or nothing when it fails.
def mutateAccountTx (keepAdmin : Bool) (fn : AccountRow → Option AccountRow) (db : Directory) :
    Except DirectoryError (AccountRow × Directory) :=
  let key := accountKey domain localPart
  match db.accounts[key]? with
  | none => .error .accountNotFound
  | some stored =>
    match fn stored with
    | none => .error .callback
    | some account =>
      if keepAdmin && stored.activeAdmin && !account.activeAdmin && !otherActiveAdminTx db
          (fun other => other.domain == stored.domain && other.localPart == stored.localPart) then
        .error .lastActiveAdmin
      else .ok (stored.restore account, db.putAccount key (stored.restore account))

def Directory.mutateAccount : Except DirectoryError AccountRow × Directory :=
  db.update fault (mutateAccountTx domain localPart false fn)

def Directory.mutateAccountKeepAdmin : Except DirectoryError AccountRow × Directory :=
  db.update fault (mutateAccountTx domain localPart true fn)

def incrementQuotaTx (delta : Int) (db : Directory) : Except DirectoryError (Unit × Directory) :=
  let key := accountKey domain localPart
  match db.accounts[key]? with
  | none => .error (.keyNotFound key)
  | some account =>
    match account.toAccountData.incrementQuota delta with
    | .error e => .error (.quota e key)
    | .ok data => .ok ((), db.putAccount key { account with quotaUsed := data.quotaUsed })

def Directory.incrementQuota (delta : Int) : Except DirectoryError Unit × Directory :=
  db.update fault (incrementQuotaTx domain localPart delta)

-- Answers whether the step was taken. One that is not new is no error.
def consumeTOTPStepTx (expectedLast newStep : Int) (db : Directory) :
    Except DirectoryError (Bool × Directory) :=
  let key := accountKey domain localPart
  match db.accounts[key]? with
  | none => .error (.keyNotFound key)
  | some account =>
    if account.totpLastUsedStep ≠ expectedLast ∨ newStep ≤ expectedLast then .ok (false, db)
    else .ok (true, db.putAccount key { account with totpLastUsedStep := newStep })

def Directory.consumeTOTPStep
    (expectedLast newStep : Int) : Except DirectoryError Bool × Directory :=
  db.update fault (consumeTOTPStepTx domain localPart expectedLast newStep)

def Directory.dropAccount : Directory :=
  deleteAliasesTargeting { db with accounts := db.accounts.erase (accountKey domain localPart) }
    fun target => equalFold table target (localPart ++ atSign :: domain)

def Directory.deleteAccount : Except DirectoryError Unit × Directory :=
  db.update fault fun db => .ok ((), db.dropAccount table domain localPart)

def deleteAccountKeepAdminTx (db : Directory) : Except DirectoryError (Unit × Directory) :=
  match db.accounts[accountKey domain localPart]? with
  | none => .error .accountNotFound
  | some account =>
    if account.activeAdmin && !otherActiveAdminTx db
        (fun other => other.domain == domain && other.localPart == localPart) then
      .error .lastActiveAdmin
    else .ok ((), db.dropAccount table domain localPart)

def Directory.deleteAccountKeepAdmin : Except DirectoryError Unit × Directory :=
  db.update fault (deleteAccountKeepAdminTx table domain localPart)

def createDomainTx (domain : DomainData) (db : Directory) :
    Except DirectoryError (Unit × Directory) :=
  if hasKeyFold table db.domains domain.name then .error .domainExists
  else .ok ((), { db with domains := db.domains.insert domain.name domain.marshal })

def Directory.createDomain (domain : DomainData) : Except DirectoryError Unit × Directory :=
  if validName domain.name [slash, colon] then db.update fault (createDomainTx table domain)
  else (.error (.invalidName [domain.name]), db)

def Directory.dropDomain : Directory :=
  let suffix : Text := atSign :: name
  deleteAliasesTargeting
    { domains := db.domains.filter fun k _ => !matchesFold table name true k
      accounts := db.accounts.filter fun k _ => !matchesFold table (accountKey name []) false k
      aliases := db.aliases.filter fun k _ => !matchesFold table (name ++ [colon]) false k }
    fun target => suffix.length < target.length &&
      equalFold table (target.drop (target.length - suffix.length)) suffix

def deleteDomainTx (keepAdmin : Bool) (db : Directory) : Except DirectoryError (Unit × Directory) :=
  let inDomain := db.accounts.toList.any fun entry =>
    entry.2.activeAdmin && equalFold table entry.2.domain name
  if keepAdmin && inDomain &&
      !otherActiveAdminTx db (fun account => equalFold table account.domain name) then
    .error .lastActiveAdmin
  else .ok ((), db.dropDomain table name)

def Directory.deleteDomain : Except DirectoryError Unit × Directory :=
  db.update fault (deleteDomainTx table name false)

def Directory.deleteDomainKeepAdmin : Except DirectoryError Unit × Directory :=
  db.update fault (deleteDomainTx table name true)

end UMail.Db
