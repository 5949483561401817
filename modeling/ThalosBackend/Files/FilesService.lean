import ThalosBackend.Agreements.AgreementAccess
import ThalosBackend.Files.FilesDb

/-!
# The files service

`files/files.service.ts` and `files/files.constants.ts`. A file is uploaded for an agreement or for none,
and read through links that are valid for a few minutes. Objects lie in a private bucket, so a link is
the only way to a file.
-/

set_option autoImplicit false

namespace ThalosBackend.Files

open Agreements (AgreementProgram)
open Calls (ask)
open Js (nonEmpty)
open Wallets (Reply)

/-- A program over the files. -/
abbrev FilesProgram := Calls HttpException FilesCall FilesCall.reply

/-- A program of the agreements over the files. -/
def ofAgreements {α : Type} (p : AgreementProgram α) : FilesProgram α :=
  p.embed FilesCall.agreement fun _ x => x

/-! ## Constants -/

/-- `MAX_FILE_BYTES`. -/
def maxFileBytes : ℕ := 10 * 1024 * 1024

/-- `ALLOWED_CONTENT_TYPES`. -/
def allowedContentTypes : List String :=
  ["image/png", "image/jpeg", "image/webp", "image/gif", "application/pdf", "text/plain", "text/csv",
    "application/msword", "application/vnd.openxmlformats-officedocument.wordprocessingml.document",
    "application/vnd.ms-excel", "application/vnd.openxmlformats-officedocument.spreadsheetml.sheet"]

/-- `SIGNED_URL_TTL_SECONDS`. -/
def signedUrlTtlSeconds : ℕ := 5 * 60

/-- `STORAGE_BUCKET`, where the environment names no other. -/
def storageBucket : String := "attachments"

/-- `storagePathFor(agreementId, fileId)`. -/
def storagePathFor (agreementId : Option String) (fileId : String) : String :=
  (match nonEmpty agreementId with
    | some id => "agreements/" ++ id
    | none => "unscoped") ++ "/" ++ fileId

/-! ## Uploads -/

/-- `UploadedFileLike`. -/
structure UploadedFileLike where
  originalname : String
  mimetype : String
  size : ℕ
  buffer : List UInt8
  deriving DecidableEq

/-- `assertAcceptable(file)`. -/
def assertAcceptable (file : UploadedFileLike) : Except HttpException Unit := do
  if file.buffer.length = 0 then .error (.badRequest "The uploaded file is empty")
  if maxFileBytes < file.size then .error (.payloadTooLarge "Files must be 10 MB or smaller")
  if file.mimetype ∉ allowedContentTypes then
    .error (.unsupportedMediaType ("Files of type " ++ file.mimetype ++ " are not accepted"))

/-- `assertAgreementAccess(userId, agreementId)`, a copy of the check of the agreements service, with the id
as the table has it. -/
def assertAgreementAccess (userId agreementId : String) : FilesProgram Unit :=
  ofAgreements (Agreements.assertCanAccessAgreement userId agreementId)

/-- The row of an upload. -/
def UploadedFileLike.row (userId uploaderWallet : String) (agreementId : Option String) (id : String)
    (file : UploadedFileLike) : NewFile where
  id
  storagePath := storagePathFor agreementId id
  fileName := file.originalname
  contentType := file.mimetype
  sizeBytes := file.size
  agreementId
  uploadedByUser := userId
  uploadedByWallet := uploaderWallet

/-- What `upload` does once the caller may use the agreement. -/
def storeFile (new : NewFile) : FilesProgram StoredFile := do
  match ← ask (FilesCall.uploadObject new.storagePath new.contentType) with
  | .error _ =>
    .fail (.serviceUnavailable ("Could not store the file. If this persists, check that the \"" ++
      storageBucket ++ "\" storage bucket exists."))
  | .ok _ =>
    match ← ask (FilesCall.insertFile new) with
    | .error e =>
      let _ ← ask (FilesCall.removeObject new.storagePath)
      .fail (.badRequest ("Could not record the file: " ++ e.message))
    | .ok data => return data

/-- `upload(userId, uploaderWallet, agreementId, file)`, with the id that `randomUUID()` gives. -/
def upload (userId uploaderWallet : String) (agreementId : Option String) (id : String)
    (file : UploadedFileLike) : FilesProgram StoredFile := do
  .ofExcept (assertAcceptable file)
  match nonEmpty agreementId with
  | some agreement => assertAgreementAccess userId (uuidOf agreement)
  | none => pure ()
  storeFile (file.row userId uploaderWallet agreementId id)

/-! ## Reading -/

/-- The check of each file. A file without an agreement is not checked. -/
def assertReadable (userId : String) : List StoredFile → FilesProgram Unit
  | [] => return
  | file :: files => do
    match nonEmpty file.agreementId with
    | some agreement => assertAgreementAccess userId agreement
    | none => pure ()
    assertReadable userId files

/-- What `readableFiles` does with the files it has found. -/
def checkedFiles (userId : String) (unique : List String) (files : List StoredFile) :
    FilesProgram (List StoredFile) := do
  let missing := unique.filter fun id => !files.any fun f => f.id = id
  if missing ≠ [] then .fail (.notFound ("No such file: " ++ String.intercalate ", " missing))
  else
    assertReadable userId files
    return files

/-- `readableFiles(userId, fileIds)`. -/
def readableFiles (userId : String) (fileIds : List String) : FilesProgram (List StoredFile) := do
  let unique := (fileIds.filter (· ≠ "")).eraseDups
  if unique = [] then return []
  match ← ask (FilesCall.findFiles unique) with
  | .error e => .fail (.badRequest ("Could not read the files: " ++ e.message))
  | .ok files => checkedFiles userId unique files

/-- `{ url, name }`. -/
structure DownloadLink where
  url : String
  name : String
  deriving DecidableEq

/-- The link to the first of the files. -/
def linkTo : List StoredFile → FilesProgram DownloadLink
  -- a read of `file.storage_path` throws
  | [] => .fail .internal
  | file :: _ => do
    match ← ask (FilesCall.createSignedUrl file.storagePath signedUrlTtlSeconds file.fileName) with
    | .error e => .fail (.serviceUnavailable ("Could not create a download link: " ++ e.message))
    | .ok signedUrl =>
      if signedUrl = "" then .fail (.serviceUnavailable "Could not create a download link: unknown")
      else return ⟨signedUrl, file.fileName⟩

/-- `signedUrl(userId, fileId)`. -/
def signedUrl (userId fileId : String) : FilesProgram DownloadLink := do
  linkTo (← readableFiles userId [fileId])

end ThalosBackend.Files
