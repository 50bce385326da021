import UMail.Storage.Isolation
import Mathlib.Data.List.DropRight

namespace UMail.Imap

open UMail.Storage

def slash : UInt8 := 47

def canonMailbox (name : Bytes) : Bytes :=
  if 5 ≤ name.length && equalFold (name.take 5) (bytes "INBOX") &&
      (name.length = 5 || name[5]? = some slash) then
    bytes "INBOX" ++ name.drop 5
  else name

def segmentError (segment : Bytes) : Option Bytes :=
  if segment = [] then some (bytes "invalid mailbox name: empty hierarchy level")
  else if segment = bytes "." || segment = bytes ".." then
    some (bytes "invalid mailbox name: relative hierarchy level")
  else none

def checkNewMailboxName (name : Bytes) : Except Bytes Bytes :=
  let name := canonMailbox (name.rdropWhile (· = slash))
  if name = [] then .error (bytes "invalid mailbox name")
  else if name.any fun c => c = 42 || c = 37 then .error (bytes "mailbox name must not contain wildcards")
  else match (name.splitOn slash).findSome? segmentError with
    | some e => .error e
    | none =>
      if name.any fun c => c < 32 || c = 127 then .error (bytes "invalid mailbox name: control character")
      else .ok name

structure MailboxMove where
  source : Bytes
  target : Bytes
  deriving DecidableEq, Repr

def isInferior (oldName name : Bytes) : Bool := (oldName ++ [slash]).isPrefixOf name

def moveBelow (oldName newName name : Bytes) : MailboxMove :=
  ⟨name, newName ++ name.drop oldName.length⟩

def renameMoves (names : List Bytes) (oldName newName : Bytes) : List MailboxMove :=
  ⟨oldName, newName⟩ :: (names.filter (isInferior oldName)).map (moveBelow oldName newName)

inductive RenameReply
  | no (text : Bytes)
  | completed
  deriving DecidableEq, Repr

structure RenameEnv where
  listFault : Bool
  call : Nat → Env

def renameAll (env : RenameEnv) (user : Bytes) :
    Nat → List MailboxMove → Database → Except StorageError Unit × Database
  | _, [], db => (.ok (), db)
  | i, move :: rest, db =>
    match db.renameMailbox (env.call i) user move.source move.target with
    | (.ok _, db) => renameAll env user (i + 1) rest db
    | (.error e, db) => (.error e, db)

def alreadyExists : RenameReply := .no (bytes "[ALREADYEXISTS] Mailbox already exists")

def checkRename (names : List Bytes) (oldName newName : Bytes) : Option RenameReply :=
  let present := names ++ [bytes "INBOX"]
  if oldName ∉ present then some (.no (bytes "[NONEXISTENT] Mailbox does not exist"))
  else if newName = oldName || newName ∈ present then some alreadyExists
  else if isInferior oldName newName then
    some (.no (bytes "Cannot rename a mailbox into its own descendant"))
  else if (renameMoves names oldName newName).tail.any (·.target ∈ present) then some alreadyExists
  else none

def renameReply : Except StorageError Unit × Database → RenameReply × Database
  | (.ok _, db) => (.completed, db)
  | (.error e, db) => (.no e.text, db)

def handleRename (env : RenameEnv) (db : Database) (user oldName decodedNew : Bytes) :
    RenameReply × Database :=
  if oldName = bytes "INBOX" then (.no (bytes "Cannot rename INBOX"), db)
  else match checkNewMailboxName decodedNew with
    | .error e => (.no e, db)
    | .ok newName =>
      if env.listFault then (.no StorageError.fault.text, db)
      else
        let names := db.listMailboxes user
        match checkRename names oldName newName with
        | some reply => (reply, db)
        | none => renameReply (renameAll env user 0 (renameMoves names oldName newName) db)

end UMail.Imap
