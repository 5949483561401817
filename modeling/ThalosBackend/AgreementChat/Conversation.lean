import Mathlib.Data.List.Sort
import ThalosBackend.AgreementChat.SendAtomicity

/-!
# The conversation of an agreement

`getMessages` and `withAttachments` of `agreement-chat/agreement-chat.service.ts`. The attachments of all
messages are read with one query, and sorted into a map by message. A conversation is read without its
attachments if they cannot be read.
-/

set_option autoImplicit false

namespace ThalosBackend.AgreementChat

open Agreements (mayAccess)
open Calls (Ensures ask)
open Files (AgreementMessage Attachment FilesCall FilesDb FilesProgram StoredFile)
open Wallets (Reply)

/-! ## Rows -/

/-- `FileRow`: what is selected of an attached file. -/
structure FileRow where
  id : String
  fileName : String
  contentType : String
  sizeBytes : ℕ
  deriving DecidableEq

/-- The row of a file. -/
def FileRow.ofFile (f : StoredFile) : FileRow := ⟨f.id, f.fileName, f.contentType, f.sizeBytes⟩

/-- What a client is shown of the row. -/
def FileRow.toPublic (f : FileRow) : PublicFile := ⟨f.id, f.fileName, f.contentType, f.sizeBytes⟩

/-- A relation as PostgREST embeds it: nothing, one row, or an array. -/
inductive Embedded where
  | null
  | row (file : FileRow)
  | array (files : List FileRow)

/-- `Array.isArray(row.files) ? row.files : row.files ? [row.files] : []`. -/
def Embedded.toList : Embedded → List FileRow
  | .null => []
  | .row file => [file]
  | .array files => files

/-- `AttachmentRow`. -/
structure AttachmentRow where
  messageId : String
  files : Embedded

/-! ## Calls -/

/-- What the chat asks for. -/
inductive ChatCall where
  | files (c : FilesCall)
  /-- The messages of an agreement, in the order of their times. -/
  | findMessages (agreementId : String)
  /-- The attachments of these messages, each with its file. -/
  | findAttachments (messageIds : List String)

/-- What a call is answered with. -/
abbrev ChatCall.reply : ChatCall → Type
  | .files c => c.reply
  | .findMessages _ => Reply (List AgreementMessage)
  | .findAttachments _ => Reply (List AttachmentRow)

/-- A program of the chat. -/
abbrev ChatProgram := Calls HttpException ChatCall ChatCall.reply

/-- A program of the files in the chat. -/
def ofFiles {α : Type} (p : FilesProgram α) : ChatProgram α :=
  p.embed ChatCall.files fun _ x => x

/-! ## Reading -/

/-- `byMessage`, the files of each message that has some. -/
abbrev ByMessage := String → Option (List PublicFile)

/-- `byMessage.get(id) ?? []`. -/
def ByMessage.filesOf (byMessage : ByMessage) (id : String) : List PublicFile :=
  (byMessage id).getD []

/-- What the loop does with a row. -/
def ByMessage.add (byMessage : ByMessage) (row : AttachmentRow) : ByMessage :=
  if row.files.toList = [] then byMessage
  else Function.update byMessage row.messageId
    (some (byMessage.filesOf row.messageId ++ row.files.toList.map FileRow.toPublic))

/-- The loop over the rows. -/
def byMessage (rows : List AttachmentRow) : ByMessage := rows.foldl ByMessage.add fun _ => none

/-- `withAttachments(messages)`. -/
def withAttachments (messages : List AgreementMessage) : ChatProgram (List SentMessage) := do
  if messages = [] then return []
  else
    match ← ask (ChatCall.findAttachments (messages.map AgreementMessage.id)) with
    | .error _ => return messages.map fun m => ⟨m, []⟩
    | .ok rows => return messages.map fun m => ⟨m, (byMessage rows).filesOf m.id⟩

/-- `getMessages(userId, agreementId)`. -/
def getMessages (userId agreementId : String) : ChatProgram (List SentMessage) := do
  ofFiles (assertCanAccessAgreement userId agreementId)
  match ← ask (ChatCall.findMessages agreementId) with
  | .error e => .fail (.badRequest ("Failed to retrieve messages: " ++ e.message))
  | .ok messages => withAttachments messages

/-! ## The map -/

/-- The files of a message, read off the rows. -/
def filesFor (rows : List AttachmentRow) (id : String) : List PublicFile :=
  (rows.filter fun row => row.messageId = id).flatMap fun row => row.files.toList.map FileRow.toPublic

theorem filesOf_add (m : ByMessage) (row : AttachmentRow) (id : String) :
    (m.add row).filesOf id = m.filesOf id ++ filesFor [row] id := by
  unfold ByMessage.add
  by_cases hid : row.messageId = id
  · subst hid
    split
    · rename_i hnone
      simp [filesFor, hnone]
    · simp [filesFor, ByMessage.filesOf]
  · have hother : filesFor [row] id = [] := by simp [filesFor, hid]
    split
    · simp [hother]
    · simp [hother, ByMessage.filesOf, Function.update_of_ne (Ne.symm hid)]

/-- **The map agrees with the rows.** One query for all messages gives each of them what a query of its
own would. -/
theorem filesOf_byMessage (rows : List AttachmentRow) (id : String) :
    (byMessage rows).filesOf id = filesFor rows id := by
  have hloop : ∀ (rows : List AttachmentRow) (m : ByMessage),
      (rows.foldl ByMessage.add m).filesOf id = m.filesOf id ++ filesFor rows id := by
    intro rows
    induction rows with
    | nil => simp [filesFor]
    | cons row rows ih =>
        intro m
        rw [List.foldl_cons, ih, filesOf_add, List.append_assoc]
        congr 1
        by_cases hid : row.messageId = id
        · simp [filesFor, hid]
        · simp [filesFor, hid]
  exact hloop rows _

theorem mem_filesFor {rows : List AttachmentRow} {id : String} {file : PublicFile} :
    file ∈ filesFor rows id ↔ ∃ row ∈ rows, row.messageId = id ∧
      ∃ f ∈ row.files.toList, f.toPublic = file := by
  simp [filesFor, and_assoc]

end ThalosBackend.AgreementChat
