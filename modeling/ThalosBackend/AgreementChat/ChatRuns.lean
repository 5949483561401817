import ThalosBackend.AgreementChat.Conversation
import ThalosBackend.Library.Conduct

/-!
# Files, messages and the bucket in step

The requests of `src/files` and `src/agreement-chat` at the same time, over the tables and the bucket.
Any query may fail, and so may the bucket, which may even have stored an object whose upload it reports
as failed, or have kept one that it was to remove. The bucket refuses an upload under a path that is
taken.
-/

set_option autoImplicit false

namespace ThalosBackend.AgreementChat

open Agreements (AgreementCall)
open Calls (Answered Serving Task)
open Files (AgreementMessage Attachment FilesAnswer FilesCall FilesDb FilesRequest StoredFile)
open Js (FloatArithmetic)
open Threads (Config Label)
open Wallets (WalletDb)

/-! ## The store -/

/-- The tables, and the paths of the objects in the bucket. -/
structure ChatStore where
  db : FilesDb
  objects : List String

/-- Whether the bucket does what its answer says. -/
inductive Bucket where
  | reliable
  | unreliable
  deriving DecidableEq

/-- The messages of an agreement. -/
def messagesOf (db : FilesDb) (agreementId : String) : List AgreementMessage :=
  db.messages.filter fun m => m.agreementId = uuidOf agreementId

/-- The files that are attached to a message. -/
def attachedTo (db : FilesDb) (messageId : String) : List StoredFile :=
  (db.attachments.filter fun a => a.messageId = messageId).flatMap fun a =>
    db.files.filter fun f => f.id = a.fileId

/-- The attachments of these messages with their files. -/
def withFiles (db : FilesDb) (messageIds : List String) : List (String × List FileRow) :=
  (db.attachments.filter fun a => a.messageId ∈ messageIds).map fun a =>
    (a.messageId, (db.files.filter fun f => f.id = a.fileId).map FileRow.ofFile)

/-- What is done with a call that does not fail. -/
def Answers (bucket : Bucket) (c : ChatCall) (s : ChatStore) (x : c.reply) (s' : ChatStore) : Prop :=
  match c with
  | .files (.uploadObject path _) =>
      ((∃ e, x = .error e) ∧ s' = s) ∨
        path ∉ s.objects ∧ s' = { s with objects := s.objects ++ [path] } ∧
          (x = .ok () ∨ bucket = .unreliable)
  | .files (.removeObject path) =>
      s' = { s with objects := s.objects.filter (· ≠ path) } ∨ bucket = .unreliable ∧ s' = s
  | .files c => Files.Answers c s.db x s'.db ∧ s'.objects = s.objects
  | .findMessages agreementId => s' = s ∧ ∃ rows, x = .ok rows ∧
      rows.Perm (messagesOf s.db agreementId) ∧ rows.Pairwise fun m m' => m.createdAt ≤ m'.createdAt
  | .findAttachments messageIds => s' = s ∧ ∃ rows, x = .ok rows ∧
      (rows.map fun row => (row.messageId, row.files.toList)).Perm (withFiles s.db messageIds)

/-- A query that fails reports an error and changes nothing. -/
def Fails (c : ChatCall) (s : ChatStore) (x : c.reply) (s' : ChatStore) : Prop :=
  match c with
  | .files c => Files.Fails c s.db x s'.db ∧ s'.objects = s.objects
  | .findMessages _ => (∃ e, x = .error e) ∧ s' = s
  | .findAttachments _ => (∃ e, x = .error e) ∧ s' = s

/-- A call is answered, or fails. -/
def Executes (bucket : Bucket) (c : ChatCall) (s : ChatStore) (x : c.reply) (s' : ChatStore) : Prop :=
  Answers bucket c s x s' ∨ Fails c s x s'

/-! ## Requests -/

/-- What is asked of the services. -/
inductive ChatRequest where
  | files (req : FilesRequest)
  | getMessages (userId agreementId : String)

/-- What a request is answered with. -/
inductive ChatAnswer where
  | files (answer : FilesAnswer)
  | conversation (messages : List SentMessage)

/-- The operation behind a request. -/
def ChatRequest.program (F : FloatArithmetic) : ChatRequest → ChatProgram ChatAnswer
  | .files req => do return .files (← ofFiles (req.program F))
  | .getMessages userId agreementId => do
      return .conversation (← AgreementChat.getMessages userId agreementId)

/-- The calls of a request and what came back, the latest first. -/
abbrev ChatHistory := Answered ChatCall ChatCall.reply

/-- The requests, and changes of the wallet tables around them. At the beginning there is no file, no
message and no object. -/
def chatServing (F : FloatArithmetic) :
    Serving ChatRequest (HttpException × ChatHistory) (ChatCall × ChatHistory) (fun c => c.1.reply)
      (ChatAnswer × ChatHistory) ChatStore Bucket WalletDb where
  init s := s.db.files = [] ∧ s.db.messages = [] ∧ s.db.attachments = [] ∧ s.objects = []
  program req := Calls.traced (req.program F) []
  exec bucket _ c s x s' := Executes bucket c.1 s x s'
  env wallet s s' := s' = { s with db := { s.db with
    agreement := { s.db.agreement with wallet := wallet } } }

abbrev ChatTask := Task ChatRequest (HttpException × ChatHistory) (ChatCall × ChatHistory)
  (fun c => c.1.reply) (ChatAnswer × ChatHistory)

abbrev ChatConfig := Config ChatStore ℕ ChatTask

abbrev ChatLabel := Label ℕ ChatTask Bucket WalletDb

/-- The step system of the requests. -/
def chatSystem (F : FloatArithmetic) : StepSystem ChatConfig ChatLabel :=
  (chatServing F).threads.system ℕ

/-- No agreement is deleted that has files. -/
def KeepsFiles (c : ChatConfig) : ChatLabel → Prop
  | .act t _ => ∀ req id history cont,
      c.threads t = some ⟨req, .call (.files (.agreement (.deleteAgreement id)), history) cont⟩ →
        ∀ f ∈ c.shared.db.files, f.agreementId ≠ some id
  | _ => True

/-! ## Answers that can be computed -/

/-- The answer of a database that answers, and of a bucket that does what it says. -/
def ChatStore.answer : (c : ChatCall) → ChatStore → c.reply × ChatStore
  | .files (.uploadObject path _), s =>
      if path ∈ s.objects then (.error ⟨"409", "The resource already exists"⟩, s)
      else (.ok (), { s with objects := s.objects ++ [path] })
  | .files (.removeObject path), s => (.ok (), { s with objects := s.objects.filter (· ≠ path) })
  | .files c, s => ((s.db.answer c).1, { s with db := (s.db.answer c).2 })
  | .findMessages agreementId, s =>
      (.ok ((messagesOf s.db agreementId).insertionSort fun m m' => m.createdAt ≤ m'.createdAt), s)
  | .findAttachments messageIds, s =>
      (.ok ((withFiles s.db messageIds).map fun row => ⟨row.1, .array row.2⟩), s)

theorem ChatStore.answers_answer (c : ChatCall) (s : ChatStore) :
    Answers .reliable c s (s.answer c).1 (s.answer c).2 := by
  cases c with
  | files c =>
      cases c with
      | uploadObject path contentType =>
          by_cases hpath : path ∈ s.objects
          · simp [Answers, ChatStore.answer, hpath]
          · simp [Answers, ChatStore.answer, hpath]
      | removeObject path => exact .inl rfl
      | _ => exact ⟨s.db.answers_answer _, rfl⟩
  | findMessages agreementId =>
      exact ⟨rfl, _, rfl, List.perm_insertionSort _ _, List.pairwise_insertionSort _ _⟩
  | findAttachments messageIds =>
      refine ⟨rfl, _, rfl, ?_⟩
      simp [Embedded.toList, Function.comp_def]

/-- Two users, and nothing else. -/
def emptyChat : ChatStore := ⟨Files.emptyFiles, []⟩

/-- The requests of a schedule, answered one call at a time. -/
def playChat (check : ChatStore → List ChatTask → Calls.Move ChatRequest → Bool)
    (moves : List (Calls.Move ChatRequest)) : Option (ChatStore × List ChatTask) :=
  (chatServing Agreements.exactArithmetic).play (fun _ c s => s.answer c.1) check moves (emptyChat, [])

theorem reachable_playChat {guard : ChatConfig → ChatLabel → Prop}
    {check : ChatStore → List ChatTask → Calls.Move ChatRequest → Bool}
    {moves : List (Calls.Move ChatRequest)} {state : ChatStore × List ChatTask}
    (hcheck : ∀ s tasks m, check s tasks m = true → guard (Calls.begun s tasks)
      (m.label (chatServing Agreements.exactArithmetic) .reliable tasks))
    (h : playChat check moves = some state) :
    ((chatSystem Agreements.exactArithmetic).restrict guard).Reachable
      (Calls.begun state.1 state.2) := by
  have hexec : ∀ (c : ChatCall) (s : ChatStore),
      Executes .reliable c s (s.answer c).1 (s.answer c).2 := fun c s => .inl (s.answers_answer c)
  refine Calls.reachable_play (fun _ c s => hexec c.1 s) hcheck ?_ h
  exact .init ⟨⟨rfl, rfl, rfl, rfl⟩, fun _ => rfl⟩

/-- The next call deletes no agreement. -/
def deletesNone (_ : ChatStore) (tasks : List ChatTask) : Calls.Move ChatRequest → Bool
  | .start _ => true
  | .next t => match tasks[t]? with
    | some ⟨_, .call (.files (.agreement (.deleteAgreement _)), _) _⟩ => false
    | _ => true

theorem keepsFiles_of_deletesNone {F : FloatArithmetic} {s : ChatStore} {tasks : List ChatTask}
    {m : Calls.Move ChatRequest} (h : deletesNone s tasks m = true) :
    KeepsFiles (Calls.begun s tasks) (m.label (chatServing F) .reliable tasks) := by
  cases m with
  | start req => trivial
  | next t =>
      intro req id history cont hk
      have htask : tasks[t]? = some
          ⟨req, .call (.files (.agreement (.deleteAgreement id)), history) cont⟩ := hk
      rw [deletesNone, htask] at h
      cases h

/-- `payer` creates an agreement, and uploads a file for it. -/
def uploadMoves : List (Calls.Move ChatRequest) :=
  .start (.files (.agreement (Agreements.createOperation "10" none Agreements.splitTen))) ::
    (List.replicate 20 (.next 0) ++ .start (.files (.upload "payer" "P" (some "i") "f" Files.note)) ::
      List.replicate 20 (.next 1))

/-- `payer` sends the file. -/
def sendFile : SendMessageDto := ⟨"i", "P", "the receipt", ["f"]⟩

/-- The file is sent, and the conversation is read. -/
def sendMoves : List (Calls.Move ChatRequest) :=
  uploadMoves ++ .start (.files (.sendMessage "payer" sendFile)) :: List.replicate 20 (.next 2) ++
    .start (.getMessages "payer" "i") :: List.replicate 20 (.next 3)

end ThalosBackend.AgreementChat
