import UMail.Db.Accounts

namespace UMail.Db

open Text (CaseTable toLower equalFold trimSpace)
open Separator (cutLast)
open UMail.Storage (colon)

variable (table : CaseTable) (fault : Bool) (db : Directory) (row : AliasData)

-- The row of a key, or else of the first key that differs from it in case only.
def lookupFold (aliases : Bucket AliasData) (key : Text) : Option AliasData :=
  match aliases[key]? with
  | some row => some row
  | none => (aliases.toList.find? fun entry => equalFold table entry.1 key).map Prod.snd

-- Follows a target for a number of rounds. It is a cycle when it comes to the
-- alias itself, or to no end.
def aliasCycle (table : CaseTable) (aliases : Bucket AliasData) (self : Text) : Nat → Text → Bool
  | 0, _ => true
  | depth + 1, cur =>
    match cutLast atSign cur with
    | none | some ([], _) => false
    | some (localPart, domain) =>
      let key := aliasKey table domain localPart
      if toLower table key = self then true
      else match lookupFold table aliases key with
        | none => false
        | some next =>
          if next.isActive then aliasCycle table aliases self depth (trimSpace next.target)
          else false

def aliasCycleTx (selfKey target : Text) : Bool :=
  aliasCycle table db.aliases (toLower table selfKey) 32 (trimSpace target)

def AliasData.selfTarget : Bool :=
  let target := toLower table row.target
  target == toLower table row.aliasName ||
    target == toLower table (row.aliasName ++ atSign :: row.domain)

def AliasData.key : Text :=
  aliasKey table row.domain row.aliasName

def Directory.putAlias : Directory :=
  { db with aliases := db.aliases.insert (row.key table) row.marshal }

def createAliasTx (db : Directory) : Except DirectoryError (Unit × Directory) :=
  if !hasKeyFold table db.domains row.domain then .error .domainNotFound
  else if hasKeyFold table db.aliases (row.key table) then .error .aliasExists
  else if hasKeyFold table db.accounts (accountKey row.domain row.aliasName) then .error .aliasConflict
  else if aliasCycleTx table db (row.key table) row.target then .error .aliasConflict
  else .ok ((), db.putAlias table row)

def Directory.createAlias : Except DirectoryError Unit × Directory :=
  if !validName row.domain [slash, colon] || !validName row.aliasName [slash] then
    (.error (.invalidName [row.aliasName, row.domain]), db)
  else if row.selfTarget table then (.error .aliasConflict, db)
  else db.update fault (createAliasTx table row)

def updateAliasTx (db : Directory) : Except DirectoryError (Unit × Directory) :=
  if !db.aliases.contains (row.key table) then .error .aliasNotFound
  else if aliasCycleTx table db (row.key table) row.target then .error .aliasConflict
  else .ok ((), db.putAlias table row)

def Directory.updateAlias : Except DirectoryError Unit × Directory :=
  if row.selfTarget table then (.error .aliasConflict, db)
  else db.update fault (updateAliasTx table row)

def Directory.deleteAlias (domain localPart : Text) : Except DirectoryError Unit × Directory :=
  db.update fault fun db =>
    .ok ((), { db with aliases := db.aliases.erase (aliasKey table domain localPart) })

end UMail.Db
