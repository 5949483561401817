import ThalosBackend.AgreementChat.AgreementChatService
import ThalosBackend.Agreements.AccessRule
import ThalosBackend.Agreements.AgreementRuns
import ThalosBackend.Library.CallThreads

/-!
# Who may read a file

Users upload files for agreements and for none, send messages with them, and operate on the agreements;
their calls interleave, any query may fail, and wallets change.

A link to a file of an agreement is given to those who may access the agreement. A file of no agreement is
given to everybody who asks for it: its uploader is recorded, but not looked at, and neither are the
messages it is attached to.
-/

set_option autoImplicit false

namespace ThalosBackend.Files

open AgreementChat (SendMessageDto SentMessage sendMessage)
open Agreements (AgreementAnswer AgreementCall AgreementDb AgreementProgram Operation mayAccess)
open Calls (Ensures Move Only Runs Serving Task)
open Js (FloatArithmetic nonEmpty)
open Threads (Config Label)
open Wallets (WalletDb)

/-! ## Who should read a file -/

/-- The user has uploaded the file, or may access the agreement it belongs to, or one with a message it is
attached to. -/
def MayRead (db : FilesDb) (userId : String) (f : StoredFile) : Prop :=
  f.uploadedByUser = userId ∨
    (∃ a, f.agreementId = some a ∧ mayAccess db.agreement userId a = true) ∨
    ∃ m ∈ db.messages, ⟨m.id, f.id⟩ ∈ db.attachments ∧
      mayAccess db.agreement userId m.agreementId = true

/-- The user is given a link to the file only if he may read it. -/
def Confidential (db : FilesDb) (userId fileId : String) : Prop :=
  ∀ link db', Runs Executes (signedUrl userId fileId) db (.ok link) db' →
    ∃ f ∈ db.files, f.id = fileId ∧ MayRead db userId f

/-! ## What a link says -/

section Links

variable {db : FilesDb} {userId fileId : String}

/-- A query of the agreements is one of their part of the database. -/
theorem Executes.agreement {c : AgreementCall} {db' : FilesDb} {x : c.reply}
    (h : Executes (.agreement c) db x db') :
    Agreements.Executes c db.agreement x db'.agreement := by
  rcases h with ⟨agreement, hanswers, rfl⟩ | ⟨hfails, rfl⟩
  · refine .inl ?_
    have hcascade : ({ db with agreement := agreement }.cascade c).agreement = agreement := by
      cases c <;> rfl
    rw [hcascade]
    exact hanswers
  · exact .inr hfails

/-- Whoever passes the check may access the agreement. -/
theorem assertAgreementAccess_own (agreementId : String) :
    Ensures Executes (assertAgreementAccess userId agreementId) db fun out db' =>
      db'.agreement = db.agreement ∧
        (out = .ok () → mayAccess db.agreement userId agreementId = true) :=
  Calls.Ensures.embed FilesDb.agreement Agreements.assertCanAccessAgreement_own
    fun _ _ _ _ hexec => hexec.agreement

/-- Files that have all passed belong to agreements that the user may access, or to none. -/
theorem assertReadable_own (files : List StoredFile) :
    Ensures Executes (assertReadable userId files) db fun out db' =>
      db'.agreement = db.agreement ∧ (out = .ok () → ∀ f ∈ files, ∀ a ∈ nonEmpty f.agreementId,
        mayAccess db.agreement userId a = true) := by
  induction files generalizing db with
  | nil => exact ⟨rfl, by simp⟩
  | cons f files ih =>
      have hrest : ∀ db₁ : FilesDb, db₁.agreement = db.agreement →
          (∀ a ∈ nonEmpty f.agreementId, mayAccess db.agreement userId a = true) →
          Ensures Executes (assertReadable userId files) db₁ fun out db' =>
            db'.agreement = db.agreement ∧ (out = .ok () → ∀ g ∈ f :: files,
              ∀ a ∈ nonEmpty g.agreementId, mayAccess db.agreement userId a = true) := by
        intro db₁ hsame hf
        refine ih.mono fun out db' hout => ⟨hout.1.trans hsame, fun hok => ?_⟩
        refine List.forall_mem_cons.mpr ⟨hf, ?_⟩
        rw [← hsame]
        exact hout.2 hok
      rw [assertReadable]
      cases hscope : nonEmpty f.agreementId with
      | none => exact hrest db rfl (by simp [hscope])
      | some a =>
          refine Calls.ensures_bind.mpr ((assertAgreementAccess_own a).mono ?_)
          rintro out db₁ ⟨hsame, hout⟩
          refine ⟨fun _ hok => hrest db₁ hsame ?_, fun e he => ⟨hsame, by simp⟩⟩
          rw [hscope]
          intro b hb
          obtain rfl := Option.mem_some_iff.mp hb
          exact hout hok

/-- Files that may be read are of the table, and have passed. -/
theorem readableFiles_own (fileIds : List String) :
    Ensures Executes (readableFiles userId fileIds) db fun out _ => ∀ files, out = .ok files →
      ∀ f ∈ files, f ∈ db.files ∧ f.id ∈ fileIds ∧
        ∀ a ∈ nonEmpty f.agreementId, mayAccess db.agreement userId a = true := by
  rw [readableFiles]
  split
  · intro files hfiles
    cases hfiles
    simp
  · refine Calls.ensures_ask fun x db₁ hexec => ?_
    cases x with
    | error e => exact nofun
    | ok files =>
        have hfound : db₁ = db ∧ ∀ f ∈ files, f ∈ db.files ∧ f.id ∈ fileIds := by
          rcases hexec with ⟨⟨rows, hrows, hperm⟩, rfl⟩ | ⟨⟨e, he⟩, -⟩
          · cases hrows
            refine ⟨rfl, fun f hf => ?_⟩
            obtain ⟨hmem, hid⟩ := List.mem_filter.mp (hperm.mem_iff.mp hf)
            have hid := of_decide_eq_true hid
            rw [List.mem_eraseDups, List.mem_filter] at hid
            exact ⟨hmem, hid.1⟩
          · cases he
        obtain ⟨rfl, hfound⟩ := hfound
        dsimp only
        rw [checkedFiles]
        split
        · exact nofun
        · refine Calls.ensures_bind.mpr ((assertReadable_own files).mono ?_)
          rintro out db₂ ⟨-, hout⟩
          refine ⟨fun _ hok files' hfiles f hf => ?_, fun e he => nofun⟩
          cases hfiles
          exact ⟨(hfound f hf).1, (hfound f hf).2, hout hok f hf⟩

/-- Whoever is given a link may access the agreement of the file, if it has one. -/
theorem signedUrl_own (userId fileId : String) :
    Ensures Executes (signedUrl userId fileId) db fun out _ => ∀ link, out = .ok link →
      ∃ f ∈ db.files, f.id = fileId ∧
        ∀ a ∈ nonEmpty f.agreementId, mayAccess db.agreement userId a = true := by
  refine Calls.ensures_bind.mpr ((readableFiles_own [fileId]).mono ?_)
  rintro out db₁ hout
  refine ⟨?_, fun e he => nofun⟩
  rintro (_ | ⟨f, files⟩) hfiles
  · exact nofun
  · obtain ⟨hmem, hid, haccess⟩ := hout _ hfiles f List.mem_cons_self
    refine Calls.ensures_of_forall fun out db' link _ => ?_
    exact ⟨f, hmem, List.mem_singleton.mp hid, haccess⟩

/-- Everybody may be given a link to a file of no agreement. -/
theorem signedUrl_unscoped {f : StoredFile} (hrows : db.filesIn [f.id] = [f]) (hid : f.id ≠ "")
    (hscope : f.agreementId = none) (userId : String) :
    ∃ link, Runs Executes (signedUrl userId f.id) db (.ok link) db := by
  have hfound : Executes (.findFiles [f.id]) db (.ok [f]) db :=
    .inl ⟨⟨[f], rfl, hrows ▸ .refl _⟩, rfl⟩
  have hlink : Executes (.createSignedUrl f.storagePath signedUrlTtlSeconds f.fileName) db
      (.ok "https://storage/signed") db := .inl rfl
  have hunique : ([f.id].filter (· ≠ "")).eraseDups = [f.id] := by
    rw [List.filter_cons_of_pos (by simpa using hid), List.filter_nil]
    rfl
  have hchecked : checkedFiles userId [f.id] [f] = .done [f] := by
    simp [checkedFiles, assertReadable, hscope, nonEmpty]
  refine ⟨⟨"https://storage/signed", f.fileName⟩, ?_⟩
  rw [signedUrl, readableFiles, hunique, if_neg (List.cons_ne_nil _ _)]
  refine ⟨_, _, hfound, ?_⟩
  change Runs Executes (checkedFiles userId [f.id] [f] >>= linkTo) db _ db
  rw [hchecked]
  exact ⟨_, _, hlink, rfl, rfl⟩

end Links

/-! ## Runs -/

/-- What is asked of the services. -/
inductive FilesRequest where
  | upload (userId uploaderWallet : String) (agreementId : Option String) (id : String)
      (file : UploadedFileLike)
  | sendMessage (userId : String) (dto : SendMessageDto)
  | signedUrl (userId fileId : String)
  | agreement (o : Operation)

/-- What a request is answered with. -/
inductive FilesAnswer where
  | stored (file : StoredFile)
  | sent (message : SentMessage)
  | link (link : DownloadLink)
  | agreement (answer : AgreementAnswer)

/-- The operation behind a request. -/
def FilesRequest.program (F : FloatArithmetic) : FilesRequest → FilesProgram FilesAnswer
  | .upload userId uploaderWallet agreementId id file => do
      return .stored (← Files.upload userId uploaderWallet agreementId id file)
  | .sendMessage userId dto => do return .sent (← AgreementChat.sendMessage userId dto)
  | .signedUrl userId fileId => do return .link (← Files.signedUrl userId fileId)
  | .agreement o => do return .agreement (← ofAgreements (o.program F))

/-- The requests, and changes of the wallet tables around them. There is no file at the beginning. -/
def filesServing (F : FloatArithmetic) :
    Serving FilesRequest HttpException FilesCall FilesCall.reply FilesAnswer FilesDb Unit WalletDb where
  init db := db.files = [] ∧ db.messages = [] ∧ db.attachments = []
  program := FilesRequest.program F
  exec _ _ c db x db' := Executes c db x db'
  env wallet db db' := db' = { db with agreement := { db.agreement with wallet := wallet } }

abbrev FilesTask := Task FilesRequest HttpException FilesCall FilesCall.reply FilesAnswer

abbrev FilesConfig := Config FilesDb ℕ FilesTask

abbrev FilesLabel := Label ℕ FilesTask Unit WalletDb

/-- The step system of the requests. -/
def filesSystem (F : FloatArithmetic) : StepSystem FilesConfig FilesLabel :=
  (filesServing F).threads.system ℕ

/-- No upload begins that names no agreement. -/
def ScopedUploads (_ : FilesConfig) (l : FilesLabel) : Prop :=
  ∀ t userId uploaderWallet agreementId id file rest,
    l = .start t ⟨.upload userId uploaderWallet agreementId id file, rest⟩ → agreementId ≠ none

/-- A file the call inserts belongs to an agreement. -/
def FilesCall.Scoped : FilesCall → Prop
  | .insertFile new => new.agreementId ≠ none
  | _ => True

section Uploads

variable {F : FloatArithmetic}

theorem assertAgreementAccess_only {ok : FilesCall → Prop} (h : ∀ c, ok (.agreement c))
    (userId agreementId : String) : Only ok (assertAgreementAccess userId agreementId) :=
  Calls.only_embed h _

theorem readableFiles_only (userId : String) (fileIds : List String) :
    Only FilesCall.Scoped (readableFiles userId fileIds) := by
  have hassert : ∀ files, Only FilesCall.Scoped (assertReadable userId files) := by
    intro files
    induction files with
    | nil => trivial
    | cons f files ih =>
        rw [assertReadable]
        split
        · exact (assertAgreementAccess_only (fun _ => trivial) _ _).bind fun _ => ih
        · exact ih
  rw [readableFiles]
  split
  · trivial
  · refine Calls.only_ask trivial fun x => ?_
    cases x with
    | error e => trivial
    | ok files =>
        dsimp only
        rw [checkedFiles]
        split
        · trivial
        · exact (hassert files).bind fun _ => trivial

theorem signedUrl_only (userId fileId : String) : Only FilesCall.Scoped (signedUrl userId fileId) := by
  refine (readableFiles_only userId [fileId]).bind fun files => ?_
  cases files with
  | nil => trivial
  | cons f files =>
      refine Calls.only_ask trivial fun x => ?_
      cases x with
      | error e => trivial
      | ok url =>
          dsimp only
          split <;> trivial

theorem upload_only {agreementId : Option String} (hscope : agreementId ≠ none)
    (userId uploaderWallet id : String) (file : UploadedFileLike) :
    Only FilesCall.Scoped (upload userId uploaderWallet agreementId id file) := by
  have hstore : Only FilesCall.Scoped
      (storeFile (file.row userId uploaderWallet agreementId id)) := by
    refine Calls.only_ask trivial fun x => ?_
    cases x with
    | error e => trivial
    | ok _ =>
        refine Calls.only_ask hscope fun x => ?_
        cases x with
        | error e => exact Calls.only_ask trivial fun _ => trivial
        | ok data => trivial
  refine (Calls.only_ofExcept _).bind fun _ => ?_
  split
  · exact (assertAgreementAccess_only (fun _ => trivial) _ _).bind fun _ => hstore
  · exact hstore

theorem sendMessage_only (userId : String) (dto : SendMessageDto) :
    Only FilesCall.Scoped (sendMessage userId dto) := by
  -- from the last step of `sendMessage` to its first
  have hlink : ∀ messageId, Only FilesCall.Scoped (AgreementChat.linkFiles messageId dto.attachmentIds) := by
    intro messageId
    rw [AgreementChat.linkFiles]
    split
    · trivial
    · refine Calls.only_ask trivial fun x => ?_
      cases x with
      | error e => trivial
      | ok _ => trivial
  have hstore : ∀ text files, Only FilesCall.Scoped (AgreementChat.storeMessage userId text dto files) := by
    intro text files
    refine Calls.only_ask trivial fun x => ?_
    cases x with
    | error e => trivial
    | ok message => exact (hlink message.id).bind fun _ => trivial
  refine Only.bind (Calls.only_embed (fun _ => trivial) _) fun _ => ?_
  refine Only.bind (Only.bind (Calls.only_embed (fun _ => trivial) _) fun wallets => ?_) fun _ => ?_
  · split <;> trivial
  · dsimp only
    split
    · trivial
    · refine (readableFiles_only userId dto.attachmentIds).bind fun files => ?_
      split
      · trivial
      · exact hstore _ files

/-- Requests that may begin insert files of agreements. -/
theorem FilesRequest.program_only {c : FilesConfig} {t : ℕ} {req : FilesRequest}
    (hguard : ScopedUploads c (.start t ⟨req, req.program F⟩)) :
    Only FilesCall.Scoped (req.program F) := by
  cases req with
  | upload userId uploaderWallet agreementId id file =>
      have hscope := hguard t userId uploaderWallet agreementId id file _ rfl
      exact (upload_only hscope userId uploaderWallet id file).bind fun _ => trivial
  | sendMessage userId dto => exact (sendMessage_only userId dto).bind fun _ => trivial
  | signedUrl userId fileId => exact (signedUrl_only userId fileId).bind fun _ => trivial
  | agreement o =>
      exact Only.bind (Calls.only_embed (fun _ => trivial) _) fun _ => trivial

end Uploads

/-! ## The files of a run -/

/-- What a call does to the files: some go with their agreement, or one that is not refused is new. -/
theorem Executes.files {call : FilesCall} {db db' : FilesDb} {x : call.reply}
    (h : Executes call db x db') :
    db'.files.Sublist db.files ∨ ∃ new created, call = .insertFile new ∧ db.refusal new = none ∧
      db'.files = db.files ++ [new.row created] := by
  rcases h with h | h
  · cases call with
    | agreement c =>
        obtain ⟨agreement, -, rfl⟩ := h
        cases c with
        | deleteAgreement id => exact .inl List.filter_sublist
        | _ => exact .inl (.refl _)
    | insertFile new =>
        simp only [Answers] at h
        split at h
        · exact .inl (h.2 ▸ .refl _)
        · rename_i hrefusal
          obtain ⟨created, -, rfl⟩ := h
          exact .inr ⟨new, created, rfl, hrefusal, rfl⟩
    | insertMessage new =>
        obtain ⟨id, created, -, -, rfl⟩ := h
        exact .inl (.refl _)
    | insertAttachments rows =>
        simp only [Answers] at h
        split at h
        · exact .inl (h.2 ▸ .refl _)
        · exact .inl (h.2 ▸ .refl _)
    | findFiles ids => exact .inl (h.2 ▸ .refl _)
    | uploadObject path contentType => exact .inl (h ▸ .refl _)
    | removeObject path => exact .inl (h ▸ .refl _)
    | createSignedUrl path ttl download => exact .inl (h ▸ .refl _)
  · have hsame : db' = db := by
      cases call with
      | uploadObject path contentType => exact h.elim
      | removeObject path => exact h.elim
      | createSignedUrl path ttl download => exact h.elim
      | _ => exact h.2
    exact .inl (hsame ▸ .refl _)

/-- A file that is not refused has an id that is free, and its row no empty text for an id. -/
theorem FilesDb.of_refusal {db : FilesDb} {new : NewFile} (h : db.refusal new = none) :
    new.id ≠ "" ∧ new.agreementId.map uuidOf ≠ some "" ∧ ∀ f ∈ db.files, f.id ≠ new.id := by
  unfold FilesDb.refusal at h
  split at h
  · cases h
  · rename_i hids
    split at h
    · cases h
    · rename_i hfree
      obtain ⟨hid, hagreement⟩ := not_or.mp hids
      exact ⟨hid, by simpa using hagreement, fun f hf heq => hfree ⟨f, hf, .inl heq⟩⟩

/-- Ids are keys, and ids of files and agreements are no empty texts. -/
structure FilesDb.WellKeyed (db : FilesDb) : Prop where
  unique : Table.Unique StoredFile.id db.files
  ids : ∀ f ∈ db.files, f.id ≠ "" ∧ f.agreementId ≠ some ""

section Invariants

variable {F : FloatArithmetic} {guard : FilesConfig → FilesLabel → Prop} {c : FilesConfig}

/-- The files are well keyed in every run. -/
theorem wellKeyed_of_reachable (h : (filesSystem F).Reachable c) : c.shared.WellKeyed := by
  refine StepSystem.invariant_of_steps (M := filesSystem F) (I := fun c => c.shared.WellKeyed) ?_ ?_ h
  · rintro c ⟨⟨hfiles, -, -⟩, -⟩
    exact ⟨by simp [hfiles, Table.Unique], by simp [hfiles]⟩
  · rintro c l c' - hI hstep
    cases Calls.step_cases hstep with
    | start t req hfree => exact hI
    | act t a req call cont x db hk hexec =>
        rcases hexec.files with hsub | ⟨new, created, -, hrefusal, hnew⟩
        · exact ⟨hI.unique.sublist (hsub.map _), fun f hf => hI.ids f (hsub.subset hf)⟩
        · obtain ⟨hid, hagreement, hfree⟩ := FilesDb.of_refusal hrefusal
          refine ⟨?_, ?_⟩
          · rw [hnew]
            exact hI.unique.concat hfree
          · rw [hnew]
            refine List.forall_mem_append.mpr ⟨hI.ids, ?_⟩
            exact List.forall_mem_singleton.mpr ⟨hid, hagreement⟩
    | env wallet db hb =>
        obtain rfl : db = _ := hb
        exact ⟨hI.unique, hI.ids⟩

/-- Where every upload names an agreement, every file belongs to one. -/
theorem scoped_of_reachable (h : ((filesSystem F).restrict ScopedUploads).Reachable c) :
    ∀ f ∈ c.shared.files, f.agreementId ≠ none := by
  have hprogram : ∀ (c : FilesConfig) t (req : FilesRequest),
      ScopedUploads c (.start t ⟨req, req.program F⟩) → Only FilesCall.Scoped (req.program F) :=
    fun _ _ _ => FilesRequest.program_only
  refine Calls.shared_of_reachable (S := filesServing F)
    (I := fun db => ∀ f ∈ db.files, f.agreementId ≠ none) hprogram ?_ ?_ ?_ h
  · rintro db ⟨hfiles, -, -⟩
    simp [hfiles]
  · rintro c t a req call cont x db - - hscoped hI hexec
    rcases Executes.files hexec with hsub | ⟨new, created, rfl, -, hnew⟩
    · exact fun f hf => hI f (hsub.subset hf)
    · rw [hnew]
      refine List.forall_mem_append.mpr ⟨hI, ?_⟩
      simpa [FilesCall.Scoped, NewFile.row] using hscoped
  · rintro wallet db db' hI rfl
    exact hI

/-- Links are given only to those who may read the file if the user is one of them, or if the file has an
agreement. -/
theorem confidential_iff (h : (filesSystem F).Reachable c) {userId fileId : String} :
    Confidential c.shared userId fileId ↔
      (∃ f ∈ c.shared.files, f.id = fileId ∧ MayRead c.shared userId f) ∨
        ∀ f ∈ c.shared.files, f.id = fileId → f.agreementId ≠ none := by
  have hkeyed := wellKeyed_of_reachable h
  constructor
  · intro hconfidential
    by_contra hnot
    obtain ⟨hread, hscope⟩ := not_or.mp hnot
    push Not at hscope
    obtain ⟨f, hf, rfl, hnone⟩ := hscope
    -- the file has no agreement, so the link is given
    have hrows : c.shared.filesIn [f.id] = [f] := by
      simpa [FilesDb.filesIn] using hkeyed.unique.filter_key hf
    obtain ⟨link, hlink⟩ := signedUrl_unscoped hrows (hkeyed.ids f hf).1 hnone userId
    exact hread (hconfidential _ _ hlink)
  · rintro (hread | hscope) link db' hlink
    · exact hread
    · obtain ⟨f, hf, hid, haccess⟩ := Calls.ensures_iff.mp (signedUrl_own userId fileId) _ _ hlink link rfl
      refine ⟨f, hf, hid, .inr (.inl ?_)⟩
      obtain ⟨a, ha⟩ := Option.ne_none_iff_exists'.mp (hscope f hf hid)
      have hempty : a ≠ "" := by
        rintro rfl
        exact (hkeyed.ids f hf).2 ha
      refine ⟨a, ha, haccess a ?_⟩
      simp [nonEmpty, ha, hempty]

/-- **Confidentiality of files.** In every run whose uploads name their agreements, links are given only to
those who may read the file. In every run at all, this is so exactly for the files that have an agreement,
those that are not there, and the users who may read the file. -/
theorem file_confidentiality :
    (∀ c, ((filesSystem F).restrict ScopedUploads).Reachable c →
      ∀ userId fileId, Confidential c.shared userId fileId) ∧
    ∀ c, (filesSystem F).Reachable c → ∀ userId fileId,
      (Confidential c.shared userId fileId ↔
        (∃ f ∈ c.shared.files, f.id = fileId ∧ MayRead c.shared userId f) ∨
          ∀ f ∈ c.shared.files, f.id = fileId → f.agreementId ≠ none) := by
  refine ⟨fun c h userId fileId => ?_, fun c h userId fileId => confidential_iff h⟩
  exact (confidential_iff h.of_restrict).mpr (.inr fun f hf _ => scoped_of_reachable h f hf)

end Invariants

/-! ## An upload that names no agreement -/

/-- The answer to a call of one database that answers, and of a bucket that never fails. -/
def FilesDb.answer : (c : FilesCall) → FilesDb → c.reply × FilesDb
  | .agreement c, db => ((db.agreement.answer c).1,
      ({ db with agreement := (db.agreement.answer c).2 } : FilesDb).cascade c)
  | .uploadObject _ _, db => (.ok (), db)
  | .removeObject _, db => (.ok (), db)
  | .insertFile new, db =>
      match db.refusal new with
      | some e => (.error e, db)
      | none => (.ok (new.row 0), { db with files := db.files ++ [new.row 0] })
  | .findFiles ids, db => (.ok (db.filesIn ids), db)
  | .createSignedUrl path _ _, db => (.ok ("https://storage/" ++ path), db)
  | .insertMessage new, db =>
      let row := new.row (freshText (db.messages.map AgreementMessage.id)) 0
      (.ok row, { db with messages := db.messages ++ [row] })
  | .insertAttachments rows, db =>
      match db.attachmentsRefusal rows with
      | some e => (.error e, db)
      | none => (.ok (), { db with attachments := db.attachments ++ rows })

theorem FilesDb.answers_answer (c : FilesCall) (db : FilesDb) :
    Answers c db (db.answer c).1 (db.answer c).2 := by
  cases c with
  | agreement c => exact ⟨_, db.agreement.answers_answer c, rfl⟩
  | insertFile new =>
      cases hrefusal : db.refusal new with
      | some e => simp [Answers, FilesDb.answer, hrefusal]
      | none =>
          simp only [Answers, FilesDb.answer, hrefusal]
          exact ⟨0, rfl, rfl⟩
  | findFiles ids => exact ⟨⟨_, rfl, .refl _⟩, rfl⟩
  | insertMessage new =>
      exact ⟨_, _, fun m hm => freshText_ne (List.mem_map_of_mem hm), rfl, rfl⟩
  | insertAttachments rows =>
      cases hrefusal : db.attachmentsRefusal rows with
      | some e => simp [Answers, FilesDb.answer, hrefusal]
      | none => simp [Answers, FilesDb.answer, hrefusal]
  | _ => exact rfl

theorem FilesDb.executes_answer (c : FilesCall) (db : FilesDb) :
    Executes c db (db.answer c).1 (db.answer c).2 :=
  .inl (db.answers_answer c)

/-- A store with two users and no files. -/
def emptyFiles : FilesDb := ⟨Agreements.newStore, [], [], []⟩

/-- The requests of a schedule. -/
def playFiles (check : FilesDb → List FilesTask → Move FilesRequest → Bool)
    (moves : List (Move FilesRequest)) : Option (FilesDb × List FilesTask) :=
  (filesServing Agreements.exactArithmetic).play (fun _ c db => db.answer c) check moves (emptyFiles, [])

theorem reachable_playFiles {guard : FilesConfig → FilesLabel → Prop}
    {check : FilesDb → List FilesTask → Move FilesRequest → Bool} {moves : List (Move FilesRequest)}
    {state : FilesDb × List FilesTask}
    (hcheck : ∀ db tasks m, check db tasks m = true →
      guard (Calls.begun db tasks) (m.label (filesServing Agreements.exactArithmetic) () tasks))
    (h : playFiles check moves = some state) :
    ((filesSystem Agreements.exactArithmetic).restrict guard).Reachable
      (Calls.begun state.1 state.2) := by
  refine Calls.reachable_play (fun _ c db => db.executes_answer c) hcheck ?_ h
  exact .init ⟨⟨rfl, rfl, rfl⟩, fun _ => rfl⟩

/-- The move is no upload that names no agreement. -/
def scopedMove (_ : FilesDb) (_ : List FilesTask) : Move FilesRequest → Bool
  | .start (.upload _ _ agreementId _ _) => agreementId.isSome
  | _ => true

theorem scopedUploads_of_scopedMove {F : FloatArithmetic} {db : FilesDb} {tasks : List FilesTask}
    {m : Move FilesRequest} (h : scopedMove db tasks m = true) :
    ScopedUploads (Calls.begun db tasks) (m.label (filesServing F) () tasks) := by
  rintro t userId uploaderWallet agreementId id file rest heq rfl
  cases m with
  | next t' => cases heq
  | start req =>
      obtain ⟨-, hreq⟩ := Label.start.inj heq
      cases hreq
      cases h

/-- A text of one byte. -/
def note : UploadedFileLike := ⟨"note.txt", "text/plain", 1, [0]⟩

/-- `payer` creates an agreement and uploads a file for it. -/
def scopedMoves : List (Move FilesRequest) :=
  .start (.agreement (Agreements.createOperation "10" none Agreements.splitTen)) ::
    (List.replicate 20 (.next 0) ++
      .start (.upload "payer" "P" (some "i") "f" note) :: List.replicate 20 (.next 1))

/-- A file of no agreement. -/
def unscopedFile : StoredFile := ⟨"f", "unscoped/f", "note.txt", "text/plain", 1, none, "payer", "P", 0⟩

/-- `payer` uploads it. -/
def unscopedMoves : List (Move FilesRequest) :=
  .start (.upload "payer" "P" none "f" note) :: List.replicate 2 (.next 0)

/-- Links to a file of an agreement are given only to those who may read it. -/
theorem file_confidentiality_scoped : ∃ c,
    ((filesSystem Agreements.exactArithmetic).restrict ScopedUploads).Reachable c ∧
      (∃ f ∈ c.shared.files, f.id = "f" ∧ f.agreementId = some "i") ∧
      Confidential c.shared "stranger" "f" := by
  have hrun : ((playFiles scopedMove scopedMoves).any fun state =>
      state.1.files.any fun f => f.id = "f" ∧ f.agreementId = some "i") = true := by decide +kernel
  obtain ⟨state, hstate, hrow⟩ := (Option.any_eq_true _ _).mp hrun
  obtain ⟨f, hf, hid⟩ := List.any_eq_true.mp hrow
  have hreach := reachable_playFiles (fun _ _ _ => scopedUploads_of_scopedMove) hstate
  exact ⟨_, hreach, ⟨f, hf, of_decide_eq_true hid⟩, file_confidentiality.1 _ hreach _ _⟩

/-- A stranger is given a link to a file that `payer` has uploaded for no agreement and attached to no
message. -/
theorem not_file_confidentiality :
    ¬ ∀ F c, (filesSystem F).Reachable c → ∀ userId fileId,
      Confidential c.shared userId fileId := by
  intro hall
  have hrun : ((playFiles (fun _ _ _ => true) unscopedMoves).any fun state =>
      state.1.files = [unscopedFile] ∧ state.1.messages = []) = true := by decide +kernel
  obtain ⟨state, hstate, hrow⟩ := (Option.any_eq_true _ _).mp hrun
  obtain ⟨hfiles, hmessages⟩ := of_decide_eq_true hrow
  have hreach : ((filesSystem Agreements.exactArithmetic).restrict fun _ _ => True).Reachable
      (Calls.begun state.1 state.2) := reachable_playFiles (fun _ _ _ _ => trivial) hstate
  have hrows : state.1.filesIn [unscopedFile.id] = [unscopedFile] := by
    simp [FilesDb.filesIn, hfiles]
  obtain ⟨link, hlink⟩ := signedUrl_unscoped hrows (by decide) rfl "stranger"
  obtain ⟨f, hf, -, hread⟩ := hall _ _ hreach.of_restrict "stranger" unscopedFile.id _ _ hlink
  -- the stranger has not uploaded the file, and no agreement gives it to him
  have hf : f ∈ state.1.files := hf
  rw [hfiles, List.mem_singleton] at hf
  subst hf
  rcases hread with huploader | ⟨a, ha, -⟩ | ⟨m, hm, -⟩
  · exact absurd huploader (by decide)
  · cases ha
  · have hm : m ∈ state.1.messages := hm
    rw [hmessages] at hm
    cases hm

end ThalosBackend.Files
