import UMail.Db.Account
import UMail.Library.Text
import UMail.Storage.Keys
import Std.Data.ExtTreeMap
import Mathlib.Order.Basic
import Mathlib.Tactic.Common

namespace UMail.Db

open Std (ExtTreeMap)
open Text (CaseTable toLower equalFold trimSpace)
open UMail.Storage (colon)
open Utf8 (validText)

def slash : UInt8 := 47

def atSign : UInt8 := 64

abbrev Bucket (β : Type) := ExtTreeMap Text β

structure AccountRow extends AccountData where
  localPart : Text
  domain : Text
  isAdmin : Bool
  totpLastUsedStep : Int
  tokensValidAfter : Int
  lastLoginAt : Int
  deriving DecidableEq, Repr

structure DomainData where
  name : Text
  maxAccounts : Int
  isActive : Bool
  deriving DecidableEq, Repr

structure AliasData where
  aliasName : Text
  target : Text
  domain : Text
  isActive : Bool
  deriving DecidableEq, Repr

-- The rows are kept as JSON, where a byte that belongs to no character is
-- replaced. The keys are the names as they are.
def AccountRow.marshal (row : AccountRow) : AccountRow :=
  { row with localPart := validText row.localPart, domain := validText row.domain }

def DomainData.marshal (row : DomainData) : DomainData := { row with name := validText row.name }

def AliasData.marshal (row : AliasData) : AliasData :=
  { row with
    aliasName := validText row.aliasName
    target := validText row.target
    domain := validText row.domain }

structure Directory where
  domains : Bucket DomainData
  accounts : Bucket AccountRow
  aliases : Bucket AliasData

def Directory.empty : Directory := ⟨∅, ∅, ∅⟩

inductive DirectoryError
  | fault
  | invalidName (names : List Text)
  | accountExists
  | accountNotFound
  | domainExists
  | domainNotFound
  | domainAccountLimit
  | aliasExists
  | aliasNotFound
  | aliasConflict
  | lastActiveAdmin
  | keyNotFound (key : Text)
  | quota (e : AccountError) (key : Text)
  | callback
  deriving DecidableEq, Repr

-- A write transaction. It can fail by itself, and what it has written is kept
-- only when it ends without an error.
def Directory.update {α : Type} (fault : Bool) (db : Directory)
    (tx : Directory → Except DirectoryError (α × Directory)) : Except DirectoryError α × Directory :=
  if fault then (.error .fault, db)
  else match tx db with
    | .ok (value, db') => (.ok value, db')
    | .error e => (.error e, db)

def validName (s : Text) (forbidden : List UInt8) : Bool :=
  s ≠ [] && !s.any (· ∈ forbidden)

variable (table : CaseTable) (db : Directory) (domain localPart : Text)

def validAccountNames : Bool :=
  validName domain [slash, colon] && validName localPart [slash]

def accountKey : Text := domain ++ slash :: localPart

def aliasKey : Text :=
  domain ++ colon :: toLower table localPart

def hasKeyFold {β : Type} (table : CaseTable) (b : Bucket β) (key : Text) : Bool :=
  b.contains key || b.keys.any (fun k => equalFold table k key)

def accountShadowsAlias : Bool :=
  hasKeyFold table db.aliases (domain ++ colon :: localPart)

def Directory.getDomain (name : Text) : Option DomainData := db.domains[name]?

def Directory.getAccount : Option AccountRow :=
  db.accounts[accountKey domain localPart]?

def Directory.getAlias : Option AliasData :=
  db.aliases[aliasKey table domain localPart]?

-- The target of an active alias. An alias that is not there is an error for the
-- caller, one that is not active has the empty target.
def Directory.resolveAlias : Except DirectoryError Text :=
  match db.getAlias table domain localPart with
  | none => .error (.keyNotFound (aliasKey table domain localPart))
  | some row => .ok (if row.isActive then row.target else [])

def deleteAliasesTargeting (isMatch : Text → Bool) : Directory :=
  { db with aliases := db.aliases.filter fun _ row => !isMatch (trimSpace row.target) }

-- Keys that begin with the name, or are it, but for their case.
def matchesFold (name : Text) (exact : Bool) (key : Text) : Bool :=
  name.length ≤ key.length && equalFold table (key.take name.length) name &&
    (!exact || key.length == name.length)

end UMail.Db
