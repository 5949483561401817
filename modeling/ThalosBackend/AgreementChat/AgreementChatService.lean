import ThalosBackend.Files.FilesService
import ThalosBackend.Js.Text

/-!
# Messages of an agreement

`sendMessage` of `agreement-chat/agreement-chat.service.ts`. A message may carry files that its sender
may read: files of the same agreement, and files of none.
-/

set_option autoImplicit false

namespace ThalosBackend.AgreementChat

open Calls (ask)
open Files (AgreementMessage Attachment FilesCall FilesProgram NewMessage StoredFile ofAgreements
  readableFiles)
open Js (nonEmpty trim)

/-- `SendMessageDto`. Attachments that are missing are no attachments. -/
structure SendMessageDto where
  agreementId : String
  senderWallet : String
  message : String
  attachmentIds : List String
  deriving DecidableEq

/-- `PublicFile`. -/
structure PublicFile where
  id : String
  name : String
  contentType : String
  sizeBytes : ℕ
  deriving DecidableEq

/-- `toPublicFile(file)`. -/
def toPublicFile (file : StoredFile) : PublicFile :=
  ⟨file.id, file.fileName, file.contentType, file.sizeBytes⟩

/-- A message with its attachments. -/
structure SentMessage where
  message : AgreementMessage
  attachments : List PublicFile
  deriving DecidableEq

/-- `assertActorWallet(userId, actorWallet)`. -/
def assertActorWallet (userId actorWallet : String) : FilesProgram Unit := do
  let wallets ← ofAgreements (Agreements.resolveUserWallets userId)
  if actorWallet ∉ wallets then .fail (.forbidden "sender_wallet does not match authenticated user")

/-- `assertCanAccessAgreement(userId, agreementId)`, a copy of the check of the agreements service. The
query reads the text as an id. -/
def assertCanAccessAgreement (userId agreementId : String) : FilesProgram Unit :=
  ofAgreements (Agreements.assertCanAccessAgreement userId (uuidOf agreementId))

/-- The file belongs to another agreement. The ids are compared as texts: where the request spells the id
of the file's own agreement in another way, this says that it is another one. -/
def isForeign (agreementId : String) (file : StoredFile) : Bool :=
  (nonEmpty file.agreementId).any (· ≠ agreementId)

/-- The rows of the attachments. -/
def linkFiles (messageId : String) (attachmentIds : List String) : FilesProgram Unit := do
  if attachmentIds = [] then return
  match ← ask (FilesCall.insertAttachments (attachmentIds.map fun id => ⟨messageId, id⟩)) with
  | .error e => .fail (.badRequest ("Failed to attach the files: " ++ e.message))
  | .ok _ => return

/-- What `sendMessage` does with a message that may be sent. -/
def storeMessage (userId text : String) (dto : SendMessageDto) (files : List StoredFile) :
    FilesProgram SentMessage := do
  match ← ask (FilesCall.insertMessage ⟨dto.agreementId, userId, dto.senderWallet, text⟩) with
  | .error e => .fail (.badRequest ("Failed to send message: " ++ e.message))
  | .ok message =>
    linkFiles message.id dto.attachmentIds
    return ⟨message, files.map toPublicFile⟩

/-- `sendMessage(userId, dto)`. -/
def sendMessage (userId : String) (dto : SendMessageDto) : FilesProgram SentMessage := do
  assertCanAccessAgreement userId dto.agreementId
  assertActorWallet userId dto.senderWallet
  let text := trim dto.message
  if text = "" ∧ dto.attachmentIds = [] then .fail (.badRequest "Message cannot be empty")
  else
    let files ← readableFiles userId dto.attachmentIds
    if files.any (isForeign dto.agreementId) then
      .fail (.badRequest "An attachment belongs to a different agreement")
    else storeMessage userId text dto files

end ThalosBackend.AgreementChat
