import UMail.Library.Sequence
import UMail.Storage.Messages

namespace UMail.Storage

inductive Op
  | createMailbox (user mailbox : Bytes)
  | deleteMailbox (user mailbox : Bytes)
  | renameMailbox (user oldName newName : Bytes)
  | getNextUID (user mailbox : Bytes)
  | getNextModSeq (user mailbox : Bytes)
  | storeMessageMetadata (user mailbox : Bytes) (uid : UInt32) (metadata : Option MessageMetadata)
  | updateMessageMetadataFunc (user mailbox : Bytes) (uid : UInt32)
      (fn : MessageMetadata → Option MessageMetadata)
  | deleteMessage (user mailbox : Bytes) (uid : UInt32)
  | purgeUser (user : Bytes)

def Op.apply (env : Env) (op : Op) (db : Database) : Database :=
  match op with
  | .createMailbox user mailbox => (db.createMailbox env user mailbox).2
  | .deleteMailbox user mailbox => (db.deleteMailbox env user mailbox).2
  | .renameMailbox user oldName newName => (db.renameMailbox env user oldName newName).2
  | .getNextUID user mailbox => (db.getNextUID env user mailbox).2
  | .getNextModSeq user mailbox => (db.getNextModSeq env user mailbox).2
  | .storeMessageMetadata user mailbox uid metadata =>
    (db.storeMessageMetadata env user mailbox uid metadata).2
  | .updateMessageMetadataFunc user mailbox uid fn =>
    (db.updateMessageMetadataFunc env user mailbox uid fn).2
  | .deleteMessage user mailbox uid => (db.deleteMessage env user mailbox uid).2
  | .purgeUser user => (db.purgeUser env user).2

structure Step where
  op : Op
  env : Env

def Step.apply (step : Step) (db : Database) : Database := step.op.apply step.env db

abbrev run (steps : List Step) (db : Database) : Database := Sequence.run Step.apply steps db

end UMail.Storage
