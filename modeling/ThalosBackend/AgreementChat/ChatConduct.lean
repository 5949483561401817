import ThalosBackend.AgreementChat.ChatRuns

/-!
# The rules of the file and chat services

An upload claims the path of its object until the row is inserted, or the object is removed again. A link
is made for a file that was found. A message is inserted once, and files are attached to it once: files
that were found and are not of another agreement.

Every program keeps to these rules, whatever the replies (`program_orderly`).
-/

set_option autoImplicit false

namespace ThalosBackend.AgreementChat

open Calls (Answered Conducts Only ask conducts_ask conducts_done conducts_fail lifted)
open Files (AgreementMessage Attachment FilesCall FilesProgram FilesRequest NewFile NewMessage StoredFile
  UploadedFileLike checkedFiles linkTo readableFiles storeFile upload)
open Js (FloatArithmetic nonEmpty trim)

/-! ## What a history says -/

/-- The path that a reply leaves claimed: an object that is to get its row, or to be removed. -/
def claimAfter : (c : ChatCall) → c.reply → Option String
  | .files (.uploadObject path _), .ok _ => some path
  | .files (.insertFile new), .error _ => some new.storagePath
  | _, _ => none

/-- The path that a request claims. -/
def claimOf : ChatHistory → Option String
  | [] => none
  | e :: _ => claimAfter e.1 e.2

/-- The file was found. -/
def Found (history : ChatHistory) (f : StoredFile) : Prop :=
  ∃ unique rows, ⟨.files (.findFiles unique), .ok rows⟩ ∈ history ∧ f ∈ rows

/-- The files were found together, if there are any, and there is one for each of the ids. -/
structure Given (history : ChatHistory) (ids : List String) (files : List StoredFile) : Prop where
  found : files = [] ∨ ∃ unique, (∀ id ∈ unique, id ∈ ids) ∧
    ⟨.files (.findFiles unique), .ok files⟩ ∈ history
  all : ∀ id ∈ ids, id ≠ "" → ∃ f ∈ files, f.id = id

/-- The message was inserted like this. -/
def Inserted (history : ChatHistory) (new : NewMessage) (m : AgreementMessage) : Prop :=
  ⟨.files (.insertMessage new), .ok m⟩ ∈ history

/-- The rows attach files that were found, and not of another agreement, to the message that was
inserted. -/
def Attaches (history : ChatHistory) (rows : List Attachment) : Prop :=
  ∃ new m, Inserted history new m ∧ ∀ r ∈ rows, r.messageId = m.id ∧
    (r.fileId ≠ "" → ∃ f, Found history f ∧ f.id = r.fileId ∧ isForeign new.agreementId f = false)

/-! ## The rules -/

/-- What a request may call next. -/
def Orderly (req : ChatRequest) : ChatCall → ChatHistory → Prop
  | .files (.insertFile new), history => claimOf history = some new.storagePath ∧
      ∃ userId wallet file, req = .files (.upload userId wallet new.agreementId new.id file)
  | .files (.removeObject path), history => claimOf history = some path
  | .files (.createSignedUrl path _ _), history => claimOf history = none ∧
      ∃ f, Found history f ∧ f.storagePath = path
  | .files (.insertMessage _), history => claimOf history = none ∧
      ∀ new x, ⟨.files (.insertMessage new), x⟩ ∉ history
  | .files (.insertAttachments rows), history => claimOf history = none ∧ Attaches history rows ∧
      ∀ rows' x, ⟨.files (.insertAttachments rows'), x⟩ ∉ history
  | _, history => claimOf history = none

/-- What a message is answered with: the row, and the files that were found and attached to it. -/
structure Sent (userId : String) (dto : SendMessageDto) (sent : SentMessage) (history : ChatHistory) :
    Prop where
  inserted : Inserted history (newMessage userId dto) sent.message
  attached : (dto.attachmentIds = [] ∧ ∀ rows x, ⟨.files (.insertAttachments rows), x⟩ ∉ history) ∨
    ⟨.files (.insertAttachments (attachmentRows sent.message.id dto.attachmentIds)), .ok ()⟩ ∈ history
  given : ∃ files, Given history dto.attachmentIds files ∧ sent.attachments = files.map toPublicFile

/-- What a conversation is answered with: the messages of the agreement as they were read, and files that
were read with them. -/
structure Read (agreementId : String) (messages : List SentMessage) (history : ChatHistory) : Prop where
  rows : ⟨.findMessages agreementId, .ok (messages.map SentMessage.message)⟩ ∈ history
  attached : ∀ m ∈ messages, ∀ file ∈ m.attachments, ∃ ids rows,
    ⟨.findAttachments ids, .ok rows⟩ ∈ history ∧ file ∈ filesFor rows m.message.id

/-- How a request ends. It claims nothing then. -/
def Ended (req : ChatRequest) (out : Except HttpException ChatAnswer) (history : ChatHistory) : Prop :=
  claimOf history = none ∧
    match req, out with
    | .files (.sendMessage userId dto), .ok (.files (.sent sent)) => Sent userId dto sent history
    | .getMessages _ agreementId, .ok (.conversation messages) => Read agreementId messages history
    | _, _ => True

/-! ## Programs of the files -/

abbrev FilesHistory := Answered FilesCall FilesCall.reply

/-- The history in the chat. -/
def inChat (history : FilesHistory) : ChatHistory := lifted ChatCall.files history

/-- A program of the files keeps to the rules. -/
abbrev Keeps {α : Type} (req : ChatRequest) (post : Except HttpException α → ChatHistory → Prop)
    (p : FilesProgram α) (history : FilesHistory) : Prop :=
  Conducts (fun c history => Orderly req (.files c) (inChat history))
    (fun out history => post out (inChat history)) p history

/-- Nothing is claimed, and no message has been inserted. -/
structure Looked (history : ChatHistory) : Prop where
  unclaimed : claimOf history = none
  noMessage : ∀ new x, ⟨.files (.insertMessage new), x⟩ ∉ history
  noAttachments : ∀ rows x, ⟨.files (.insertAttachments rows), x⟩ ∉ history

theorem looked_nil : Looked (inChat []) :=
  ⟨rfl, fun _ _ => List.not_mem_nil, fun _ _ => List.not_mem_nil⟩

section Files

variable {req : ChatRequest} {history : FilesHistory} {userId : String}

/-- The rule for a call whose reply is used. -/
theorem keeps_ask {α : Type} {post : Except HttpException α → ChatHistory → Prop} {c : FilesCall}
    {f : c.reply → FilesProgram α} (hc : Orderly req (.files c) (inChat history))
    (hf : ∀ x, Keeps req post (f x) (⟨c, x⟩ :: history)) : Keeps req post (ask c >>= f) history :=
  conducts_ask hc hf

/-- What has been found stays found. -/
theorem Found.cons {history : ChatHistory} {f : StoredFile} (h : Found history f)
    (e : (c : ChatCall) × c.reply) : Found (e :: history) f := by
  obtain ⟨unique, rows, hmem, hf⟩ := h
  exact ⟨unique, rows, List.mem_cons_of_mem _ hmem, hf⟩

theorem Given.cons {history : ChatHistory} {ids : List String} {files : List StoredFile}
    (h : Given history ids files) (e : (c : ChatCall) × c.reply) : Given (e :: history) ids files := by
  refine ⟨?_, h.all⟩
  rcases h.found with hnone | ⟨unique, hids, hmem⟩
  · exact .inl hnone
  · exact .inr ⟨unique, hids, List.mem_cons_of_mem _ hmem⟩

theorem Given.each {history : ChatHistory} {ids : List String} {files : List StoredFile}
    (h : Given history ids files) {f : StoredFile} (hf : f ∈ files) : Found history f := by
  rcases h.found with rfl | ⟨unique, -, hmem⟩
  · cases hf
  · exact ⟨unique, files, hmem, hf⟩

/-- A query of the agreements says nothing of files and messages. -/
theorem Looked.agreement {history : ChatHistory} (h : Looked history) (c : Agreements.AgreementCall)
    (x : c.reply) : Looked (⟨.files (.agreement c), x⟩ :: history) := by
  refine ⟨rfl, fun new y hmem => ?_, fun rows y hmem => ?_⟩
  · rcases List.mem_cons.mp hmem with heq | hmem
    · cases heq
    · exact h.noMessage new y hmem
  · rcases List.mem_cons.mp hmem with heq | hmem
    · cases heq
    · exact h.noAttachments rows y hmem

/-- Queries of the agreements keep what is asked of a history, if each of them does. -/
theorem agreements_keep {α : Type} (keeps : ChatHistory → Prop) (p : Agreements.AgreementProgram α)
    (h : keeps (inChat history)) (hunclaimed : ∀ history, keeps history → claimOf history = none)
    (hkeeps : ∀ history (c : Agreements.AgreementCall) (x : c.reply), keeps history →
      keeps (⟨.files (.agreement c), x⟩ :: history)) :
    Keeps req (fun _ => keeps) (Files.ofAgreements p) history := by
  have honly : Only (fun c => ∃ c', c = FilesCall.agreement c') (Files.ofAgreements p) :=
    Calls.only_embed (fun c => ⟨c, rfl⟩) p
  apply honly.conducts h
  rintro c history ⟨c', rfl⟩ hk
  exact ⟨hunclaimed _ hk, fun x => hkeeps _ c' x hk⟩

theorem assertReadable_keeps (keeps : ChatHistory → Prop) (files : List StoredFile)
    (h : keeps (inChat history)) (hunclaimed : ∀ history, keeps history → claimOf history = none)
    (hkeeps : ∀ history (c : Agreements.AgreementCall) (x : c.reply), keeps history →
      keeps (⟨.files (.agreement c), x⟩ :: history)) :
    Keeps req (fun _ => keeps) (Files.assertReadable userId files) history := by
  induction files generalizing history with
  | nil => exact conducts_done.mpr h
  | cons f files ih =>
      rw [Files.assertReadable]
      cases nonEmpty f.agreementId with
      | none => exact ih h
      | some a =>
          apply (agreements_keep keeps _ h hunclaimed hkeeps).bind
          · intro _ history' h'
            exact ih h'
          · intro e history' h'
            exact h'

/-- The files that are read are given. -/
theorem readableFiles_keeps (ids : List String) (h : Looked (inChat history)) :
    Keeps req (fun out history => Looked history ∧ ∀ files, out = .ok files → Given history ids files)
      (readableFiles userId ids) history := by
  have hids : ∀ id, id ∈ (ids.filter (· ≠ "")).eraseDups ↔ id ∈ ids ∧ id ≠ "" := by
    intro id
    rw [List.mem_eraseDups, List.mem_filter, decide_eq_true_eq]
  rw [readableFiles]
  split
  · rename_i hnone
    refine conducts_done.mpr ⟨h, fun files hfiles => ?_⟩
    cases hfiles
    refine ⟨.inl rfl, fun id hid hne => ?_⟩
    have hmem := (hids id).mpr ⟨hid, hne⟩
    rw [hnone] at hmem
    cases hmem
  · refine keeps_ask (c := FilesCall.findFiles _) h.unclaimed fun x => ?_
    have hlooked : Looked (inChat (⟨.findFiles (ids.filter (· ≠ "")).eraseDups, x⟩ :: history)) := by
      refine ⟨by cases x <;> rfl, fun new y hmem => ?_, fun rows y hmem => ?_⟩
      · rcases List.mem_cons.mp hmem with heq | hmem
        · cases heq
        · exact h.noMessage new y hmem
      · rcases List.mem_cons.mp hmem with heq | hmem
        · cases heq
        · exact h.noAttachments rows y hmem
    cases x with
    | error e => exact conducts_fail.mpr ⟨hlooked, fun files hfiles => by cases hfiles⟩
    | ok files =>
        dsimp only
        rw [checkedFiles]
        split
        · exact conducts_fail.mpr ⟨hlooked, fun files hfiles => by cases hfiles⟩
        · rename_i hmissing
          -- no id is missing, so there is a file for each of them
          have hgiven : Given (inChat (⟨.findFiles (ids.filter (· ≠ "")).eraseDups, .ok files⟩ ::
              history)) ids files := by
            refine ⟨.inr ⟨_, fun id hid => ((hids id).mp hid).1, List.mem_cons_self⟩, ?_⟩
            intro id hid hne
            have hall := List.filter_eq_nil_iff.mp (not_not.mp hmissing) id
              ((hids id).mpr ⟨hid, hne⟩)
            simpa using hall
          refine (assertReadable_keeps
            (fun history => Looked history ∧ Given history ids files) files ⟨hlooked, hgiven⟩
            (fun _ hk => hk.1.unclaimed)
            (fun _ c x hk => ⟨hk.1.agreement c x, hk.2.cons _⟩)).bind ?_ ?_
          · rintro _ history' ⟨hl, hg⟩
            refine conducts_done.mpr ⟨hl, fun files' hfiles => ?_⟩
            cases hfiles
            exact hg
          · rintro e history' ⟨hl, -⟩
            exact ⟨hl, fun files hfiles => by cases hfiles⟩

/-! ## The operations -/

/-- The path is claimed from the upload of the object to its row, or to its removal. -/
theorem storeFile_keeps {new : NewFile} (hreq : ∃ userId wallet file,
      req = .files (.upload userId wallet new.agreementId new.id file))
    (h : claimOf (inChat history) = none) :
    Keeps req (fun _ history => claimOf history = none) (storeFile new) history := by
  refine keeps_ask (c := FilesCall.uploadObject _ _) h fun uploaded => ?_
  cases uploaded with
  | error e => exact conducts_fail.mpr rfl
  | ok _ =>
      refine keeps_ask (c := FilesCall.insertFile new) ⟨rfl, hreq⟩ fun inserted => ?_
      cases inserted with
      | error e =>
          refine keeps_ask (c := FilesCall.removeObject new.storagePath) rfl fun removed => ?_
          exact conducts_fail.mpr rfl
      | ok data => exact conducts_done.mpr rfl

theorem upload_keeps {wallet id : String} {agreementId : Option String} {file : UploadedFileLike}
    (hreq : req = .files (.upload userId wallet agreementId id file)) :
    Keeps req (fun _ history => claimOf history = none) (upload userId wallet agreementId id file)
      [] := by
  have hstore : ∀ history, claimOf (inChat history) = none → Keeps req
      (fun _ history => claimOf history = none)
      (storeFile (file.row userId wallet agreementId id)) history :=
    fun history h => storeFile_keeps ⟨userId, wallet, file, hreq⟩ h
  apply Calls.conducts_ofExcept
  · intro _ _
    dsimp only
    split
    · apply (agreements_keep (fun history => claimOf history = none) _ rfl
        (fun _ hk => hk) (fun _ _ _ _ => rfl)).bind
      · intro _ history' h'
        exact hstore history' h'
      · intro e history' h'
        exact h'
    · exact hstore [] rfl
  · intro e _
    rfl

theorem signedUrl_keeps (fileId : String) :
    Keeps req (fun _ history => claimOf history = none) (Files.signedUrl userId fileId) [] := by
  apply (readableFiles_keeps [fileId] looked_nil).bind
  · rintro files history ⟨hlooked, hgiven⟩
    cases files with
    | nil => exact conducts_fail.mpr hlooked.unclaimed
    | cons f files =>
        rw [linkTo]
        change Keeps req (fun _ history => claimOf history = none) _ history
        refine keeps_ask (c := FilesCall.createSignedUrl f.storagePath _ _)
          ⟨hlooked.unclaimed, f, (hgiven _ rfl).each List.mem_cons_self, rfl⟩ fun link => ?_
        cases link with
        | error e => exact conducts_fail.mpr rfl
        | ok url =>
            dsimp only
            split
            · exact conducts_fail.mpr rfl
            · exact conducts_done.mpr rfl
  · rintro e history ⟨hlooked, -⟩
    exact hlooked.unclaimed

section SendMessage

variable {dto : SendMessageDto}

/-- How a message is answered, or not. -/
abbrev SendEnds (userId : String) (dto : SendMessageDto) (out : Except HttpException SentMessage)
    (history : ChatHistory) : Prop :=
  claimOf history = none ∧ ∀ sent, out = .ok sent → Sent userId dto sent history

/-- The message that is inserted gets the files that were given. -/
theorem storeMessage_keeps {files : List StoredFile} (h : Looked (inChat history))
    (hgiven : Given (inChat history) dto.attachmentIds files)
    (hown : ∀ f ∈ files, isForeign dto.agreementId f = false) :
    Keeps req (SendEnds userId dto) (storeMessage userId (trim dto.message) dto files) history := by
  refine keeps_ask (c := FilesCall.insertMessage _) ⟨h.unclaimed, h.noMessage⟩ fun inserted => ?_
  cases inserted with
  | error e => exact conducts_fail.mpr ⟨rfl, fun sent hsent => by cases hsent⟩
  | ok message =>
      dsimp only
      rw [linkFiles]
      split
      · -- without attachments the message is all there is to store
        rename_i hnone
        refine conducts_done.mpr ⟨rfl, fun sent hsent => ?_⟩
        cases hsent
        refine ⟨List.mem_cons_self, .inl ⟨hnone, fun rows x hmem => ?_⟩, files, hgiven.cons _, rfl⟩
        rcases List.mem_cons.mp hmem with heq | hmem
        · cases heq
        · exact h.noAttachments rows x hmem
      · rw [Calls.bind_assoc]
        refine keeps_ask (c := FilesCall.insertAttachments _) ⟨rfl, ?_, ?_⟩ fun attached => ?_
        · refine ⟨_, message, List.mem_cons_self, fun r hr => ?_⟩
          obtain ⟨id, hid, rfl⟩ := List.mem_map.mp hr
          refine ⟨rfl, fun hne => ?_⟩
          obtain ⟨f, hf, hfid⟩ := hgiven.all id hid hne
          exact ⟨f, (hgiven.each hf).cons _, hfid, hown f hf⟩
        · intro rows x hmem
          rcases List.mem_cons.mp hmem with heq | hmem
          · cases heq
          · exact h.noAttachments rows x hmem
        · cases attached with
          | error e => exact conducts_fail.mpr ⟨rfl, fun sent hsent => by cases hsent⟩
          | ok _ =>
              refine conducts_done.mpr ⟨rfl, fun sent hsent => ?_⟩
              cases hsent
              exact ⟨List.mem_cons_of_mem _ List.mem_cons_self, .inr List.mem_cons_self,
                files, (hgiven.cons _).cons _, rfl⟩

theorem sendMessage_keeps (userId : String) (dto : SendMessageDto) :
    Keeps req (SendEnds userId dto) (sendMessage userId dto) [] := by
  have hrefused : ∀ (e : HttpException) (history : FilesHistory), Looked (inChat history) →
      SendEnds userId dto (.error e) (inChat history) :=
    fun e history h => ⟨h.unclaimed, fun sent hsent => by cases hsent⟩
  have hlooked : ∀ {α : Type} (p : Agreements.AgreementProgram α) (history : FilesHistory),
      Looked (inChat history) → Keeps req (fun _ => Looked) (Files.ofAgreements p) history :=
    fun p history h => agreements_keep _ p h (fun _ hk => hk.unclaimed)
      (fun _ c x hk => hk.agreement c x)
  refine (hlooked _ _ looked_nil).bind (fun _ history h => ?_) hrefused
  rw [assertActorWallet, Calls.bind_assoc]
  refine (hlooked _ _ h).bind (fun wallets history h => ?_) hrefused
  dsimp only
  split
  · exact conducts_fail.mpr (hrefused _ _ h)
  · simp only [Calls.pure_eq, Calls.done_bind]
    split
    · exact conducts_fail.mpr (hrefused _ _ h)
    · refine (readableFiles_keeps dto.attachmentIds h).bind (fun files history hread => ?_)
        fun e history hread => hrefused e history hread.1
      obtain ⟨hl, hgiven⟩ := hread
      split
      · exact conducts_fail.mpr (hrefused _ _ hl)
      · rename_i hown
        refine storeMessage_keeps hl (hgiven files rfl) fun f hf => ?_
        simpa using List.any_eq_false.mp (by simpa using hown) f hf

end SendMessage

end Files

/-! ## Every program -/

section Programs

variable {F : FloatArithmetic} {req : ChatRequest}

/-- A request of the files keeps to the rules, and its answer is only passed on. -/
theorem files_orderly {r : FilesRequest}
    (h : Keeps req (fun out history => Ended req (out.map ChatAnswer.files) history) (r.program F) []) :
    Conducts (Orderly req) (Ended req) (ChatRequest.program F (.files r)) [] := by
  have hlifted : Conducts (Orderly req) (fun out history => Ended req (out.map ChatAnswer.files) history)
      (ofFiles (r.program F)) (inChat []) := Conducts.embed h
  apply hlifted.bind
  · intro answer history hend
    exact conducts_done.mpr hend
  · intro e history hend
    exact hend

/-- Attachments are read for the messages that were. -/
theorem withAttachments_orderly {agreementId : String} {messages : List AgreementMessage}
    {history : ChatHistory} (h : claimOf history = none)
    (hrows : ⟨.findMessages agreementId, .ok messages⟩ ∈ history) :
    Conducts (Orderly req) (fun out history => claimOf history = none ∧
        ∀ conversation, out = .ok conversation → Read agreementId conversation history)
      (withAttachments messages) history := by
  rw [withAttachments]
  split
  · rename_i hnone
    subst hnone
    refine conducts_done.mpr ⟨h, fun conversation heq => ?_⟩
    cases heq
    exact ⟨hrows, fun m hm => by cases hm⟩
  · refine conducts_ask (c := ChatCall.findAttachments _) h fun attached => ?_
    have hrows' := List.mem_cons_of_mem ⟨.findAttachments (messages.map AgreementMessage.id), attached⟩
      hrows
    cases attached with
    | error e =>
        refine conducts_done.mpr ⟨rfl, fun conversation heq => ?_⟩
        cases heq
        refine ⟨by simpa [Function.comp_def] using hrows', fun m hm file hfile => ?_⟩
        obtain ⟨message, -, rfl⟩ := List.mem_map.mp hm
        cases hfile
    | ok rows =>
        refine conducts_done.mpr ⟨rfl, fun conversation heq => ?_⟩
        cases heq
        refine ⟨by simpa [Function.comp_def] using hrows', fun m hm file hfile => ?_⟩
        obtain ⟨message, -, rfl⟩ := List.mem_map.mp hm
        exact ⟨_, rows, List.mem_cons_self, filesOf_byMessage rows message.id ▸ hfile⟩

theorem getMessages_orderly (userId agreementId : String) :
    Conducts (Orderly req) (fun out history => claimOf history = none ∧
        ∀ conversation, out = .ok conversation → Read agreementId conversation history)
      (getMessages userId agreementId) [] := by
  have haccess : Conducts (Orderly req) (fun _ history => claimOf history = none)
      (ofFiles (assertCanAccessAgreement userId agreementId)) (inChat []) :=
    Conducts.embed (agreements_keep (fun history => claimOf history = none) _ rfl
      (fun _ hk => hk) (fun _ _ _ _ => rfl))
  apply haccess.bind
  · intro _ history h
    refine conducts_ask (c := ChatCall.findMessages agreementId) h fun found => ?_
    cases found with
    | error e => exact conducts_fail.mpr ⟨rfl, fun conversation heq => by cases heq⟩
    | ok messages => exact withAttachments_orderly rfl List.mem_cons_self
  · intro e history h
    exact ⟨h, fun conversation heq => by cases heq⟩

/-- **Every program keeps to the rules.** -/
theorem program_orderly (F : FloatArithmetic) (req : ChatRequest) :
    Conducts (Orderly req) (Ended req) (req.program F) [] := by
  cases req with
  | files r =>
      apply files_orderly
      cases r with
      | upload userId wallet agreementId id file =>
          apply (upload_keeps rfl).bind
          · intro stored history h
            exact conducts_done.mpr ⟨h, trivial⟩
          · intro e history h
            exact ⟨h, trivial⟩
      | sendMessage userId dto =>
          apply (sendMessage_keeps userId dto).bind
          · rintro sent history ⟨h, hsent⟩
            exact conducts_done.mpr ⟨h, hsent sent rfl⟩
          · rintro e history ⟨h, -⟩
            exact ⟨h, trivial⟩
      | signedUrl userId fileId =>
          apply (signedUrl_keeps fileId).bind
          · intro link history h
            exact conducts_done.mpr ⟨h, trivial⟩
          · intro e history h
            exact ⟨h, trivial⟩
      | agreement o =>
          apply (agreements_keep (fun history => claimOf history = none) _ rfl
            (fun _ hk => hk) (fun _ _ _ _ => rfl)).bind
          · intro answer history h
            exact conducts_done.mpr ⟨h, trivial⟩
          · intro e history h
            exact ⟨h, trivial⟩
  | getMessages userId agreementId =>
      apply (getMessages_orderly userId agreementId).bind
      · rintro messages history ⟨h, hread⟩
        exact conducts_done.mpr ⟨h, hread messages rfl⟩
      · rintro e history ⟨h, -⟩
        exact ⟨h, trivial⟩

end Programs

end ThalosBackend.AgreementChat
