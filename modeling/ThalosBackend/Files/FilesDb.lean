import ThalosBackend.Agreements.AnsweringDb
import ThalosBackend.Common.Uuid

/-!
# Files, messages and their attachments

The tables `files`, `agreement_messages` and `agreement_message_attachments` of migrations 005 and 020
beside the tables of the agreements, and what `src/files` and `src/agreement-chat` ask of them and of the
storage bucket. A file that belongs to an agreement is deleted with it, and an attachment with its file.

A request names an agreement by any spelling of its id, and the tables keep the one that PostgreSQL writes
(`uuidOf`). Files are found by their ids as they are written: a file that was named by another spelling is
found by the query, but missing for the code, which compares texts.

The bucket is outside: what it answers is open.
-/

set_option autoImplicit false

namespace ThalosBackend.Files

open Agreements (AgreementCall AgreementDb)
open Js (Timestamp)
open Wallets (DbError Reply duplicateKey)

/-! ## Rows -/

/-- A row of `files`. -/
structure StoredFile where
  id : String
  storagePath : String
  fileName : String
  contentType : String
  sizeBytes : ℕ
  agreementId : Option String
  uploadedByUser : String
  uploadedByWallet : String
  createdAt : Timestamp
  deriving DecidableEq

/-- A row of `files` as `upload` inserts it. -/
structure NewFile where
  id : String
  storagePath : String
  fileName : String
  contentType : String
  sizeBytes : ℕ
  agreementId : Option String
  uploadedByUser : String
  uploadedByWallet : String
  deriving DecidableEq

/-- The row as it is stored. -/
def NewFile.row (new : NewFile) (created : Timestamp) : StoredFile where
  id := new.id
  storagePath := new.storagePath
  fileName := new.fileName
  contentType := new.contentType
  sizeBytes := new.sizeBytes
  agreementId := new.agreementId.map uuidOf
  uploadedByUser := new.uploadedByUser
  uploadedByWallet := new.uploadedByWallet
  createdAt := created

/-- A row of `agreement_messages`. -/
structure AgreementMessage where
  id : String
  agreementId : String
  senderId : String
  senderWallet : String
  message : String
  createdAt : Timestamp
  deriving DecidableEq

/-- A row of `agreement_messages` as `sendMessage` inserts it. -/
structure NewMessage where
  agreementId : String
  senderId : String
  senderWallet : String
  message : String
  deriving DecidableEq

/-- The row as it is stored. -/
def NewMessage.row (new : NewMessage) (id : String) (created : Timestamp) : AgreementMessage where
  id
  agreementId := uuidOf new.agreementId
  senderId := new.senderId
  senderWallet := new.senderWallet
  message := new.message
  createdAt := created

/-- A row of `agreement_message_attachments`. -/
structure Attachment where
  messageId : String
  fileId : String
  deriving DecidableEq

/-! ## Calls -/

/-- What the services ask for. -/
inductive FilesCall where
  /-- A query of the agreements and wallets. -/
  | agreement (c : AgreementCall)
  /-- An upload of an object to the bucket, under a path that is not taken. -/
  | uploadObject (path contentType : String)
  | removeObject (path : String)
  | insertFile (new : NewFile)
  | findFiles (ids : List String)
  | createSignedUrl (path : String) (ttlSeconds : ℕ) (download : String)
  | insertMessage (new : NewMessage)
  | insertAttachments (rows : List Attachment)
  deriving DecidableEq

/-- What a call is answered with. -/
abbrev FilesCall.reply : FilesCall → Type
  | .agreement c => c.reply
  | .uploadObject _ _ | .removeObject _ | .insertAttachments _ => Reply Unit
  | .insertFile _ => Reply StoredFile
  | .findFiles _ => Reply (List StoredFile)
  | .createSignedUrl _ _ _ => Reply String
  | .insertMessage _ => Reply AgreementMessage

/-- The tables. -/
structure FilesDb where
  agreement : AgreementDb
  files : List StoredFile
  messages : List AgreementMessage
  attachments : List Attachment

namespace FilesDb

/-- What goes with a deleted agreement: its files, and their attachments. -/
def cascade (db : FilesDb) : AgreementCall → FilesDb
  | .deleteAgreement id =>
    let kept := db.files.filter fun f => f.agreementId ≠ some id
    { db with
      files := kept
      attachments := db.attachments.filter fun a => kept.any fun f => f.id = a.fileId }
  | _ => db

/-- Why a file cannot be inserted: a text that is no UUID, a key that is taken, an empty file, or an
agreement that is not there. -/
def refusal (db : FilesDb) (new : NewFile) : Option DbError :=
  if new.id = "" ∨ new.agreementId = some "" then
    some ⟨"22P02", "invalid input syntax for type uuid: \"\""⟩
  else if ∃ f ∈ db.files, f.id = new.id ∨ f.storagePath = new.storagePath then some duplicateKey
  else if new.sizeBytes = 0 then
    some ⟨"23514", "new row for relation \"files\" violates check constraint"⟩
  else if ∃ id ∈ new.agreementId, ∀ a ∈ db.agreement.agreements, a.id ≠ uuidOf id then
    some ⟨"23503", "insert or update on table \"files\" violates foreign key constraint"⟩
  else none

/-- Why attachments cannot be inserted: a pair that is there twice, or a row that is not there. -/
def attachmentsRefusal (db : FilesDb) (rows : List Attachment) : Option DbError :=
  if ¬ (db.attachments ++ rows).Nodup then some duplicateKey
  else if ∃ r ∈ rows, (∀ m ∈ db.messages, m.id ≠ r.messageId) ∨ ∀ f ∈ db.files, f.id ≠ r.fileId then
    some ⟨"23503", "insert or update on table \"agreement_message_attachments\" violates foreign key constraint"⟩
  else none

/-- The files with these ids. -/
def filesIn (db : FilesDb) (ids : List String) : List StoredFile := db.files.filter fun f => f.id ∈ ids

end FilesDb

/-- What is done with a call that does not fail. What the bucket answers is open, and so are the ids of
messages, the times, and the order of rows. -/
def Answers : (c : FilesCall) → FilesDb → c.reply → FilesDb → Prop
  | .agreement c, db, x, db' => ∃ agreement, Agreements.Answers c db.agreement x agreement ∧
      db' = { db with agreement := agreement }.cascade c
  | .uploadObject _ _, db, _, db' => db' = db
  | .removeObject _, db, _, db' => db' = db
  | .insertFile new, db, x, db' =>
      match db.refusal new with
      | some e => x = .error e ∧ db' = db
      | none => ∃ created, x = .ok (new.row created) ∧
          db' = { db with files := db.files ++ [new.row created] }
  | .findFiles ids, db, x, db' =>
      (∃ rows, x = .ok rows ∧ rows.Perm (db.filesIn ids)) ∧ db' = db
  | .createSignedUrl _ _ _, db, _, db' => db' = db
  | .insertMessage new, db, x, db' => ∃ id created, (∀ m ∈ db.messages, m.id ≠ id) ∧
      x = .ok (new.row id created) ∧ db' = { db with messages := db.messages ++ [new.row id created] }
  | .insertAttachments rows, db, x, db' =>
      match db.attachmentsRefusal rows with
      | some e => x = .error e ∧ db' = db
      | none => x = .ok () ∧ db' = { db with attachments := db.attachments ++ rows }

/-- A query that fails reports an error and changes nothing. -/
def Fails : (c : FilesCall) → FilesDb → c.reply → FilesDb → Prop
  | .agreement c, db, x, db' => Agreements.Fails c db.agreement x db.agreement ∧ db' = db
  | .insertFile _, db, x, db' => (∃ e, x = .error e) ∧ db' = db
  | .findFiles _, db, x, db' => (∃ e, x = .error e) ∧ db' = db
  | .insertMessage _, db, x, db' => (∃ e, x = .error e) ∧ db' = db
  | .insertAttachments _, db, x, db' => (∃ e, x = .error e) ∧ db' = db
  | .uploadObject _ _, _, _, _ => False
  | .removeObject _, _, _, _ => False
  | .createSignedUrl _ _ _, _, _, _ => False

/-- A call is answered, or fails. -/
def Executes (c : FilesCall) (db : FilesDb) (x : c.reply) (db' : FilesDb) : Prop :=
  Answers c db x db' ∨ Fails c db x db'

end ThalosBackend.Files
