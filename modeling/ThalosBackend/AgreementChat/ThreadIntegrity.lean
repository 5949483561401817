import ThalosBackend.AgreementChat.ChatConduct

/-!
# Conversations keep to their agreement

Messages are inserted before their attachments and read before them, in queries of their own, while
others upload, send and delete. Still a conversation shows files of its own agreement and files of none
only, as long as no id is given to files of two agreements (`conversations_keep_to_their_agreement`); and
what was sent is read, with the files it was sent with, as long as no agreement with files is deleted
(`sent_is_read`).
-/

set_option autoImplicit false

namespace ThalosBackend.AgreementChat

open Agreements (mayAccess)
open Calls (Ensures Recalling Ruled historyOf)
open Files (AgreementMessage Attachment FilesCall FilesDb NewMessage StoredFile)
open Js (FloatArithmetic nonEmpty)

/-! ## What is read when all queries are answered -/

section Reading

variable {s : ChatStore} {userId agreementId : String}

/-- The files of a message that the rows of the query stand for. -/
theorem filesFor_perm {rows : List AttachmentRow} {messageIds : List String} {id : String}
    (hrows : (rows.map fun row => (row.messageId, row.files.toList)).Perm (withFiles s.db messageIds))
    (hid : id ∈ messageIds) : (filesFor rows id).Perm ((attachedTo s.db id).map toPublicFile) := by
  -- the files are read off the pairs alone
  have hpairs : ∀ rows : List AttachmentRow, filesFor rows id =
      ((rows.map fun row => (row.messageId, row.files.toList)).filter fun pair => pair.1 = id).flatMap
        fun pair => pair.2.map FileRow.toPublic := by
    intro rows
    rw [filesFor, List.filter_map, List.flatMap_map]
    rfl
  have hattached : ((withFiles s.db messageIds).filter fun pair => pair.1 = id).flatMap
      (fun pair => pair.2.map FileRow.toPublic) = (attachedTo s.db id).map toPublicFile := by
    rw [withFiles, attachedTo, List.filter_map, List.flatMap_map, List.map_flatMap, List.filter_filter]
    have hsame : (s.db.attachments.filter fun a =>
        (decide (a.messageId = id) && decide (a.messageId ∈ messageIds))) =
        s.db.attachments.filter fun a => a.messageId = id := by
      refine List.filter_congr fun a _ => ?_
      by_cases ha : a.messageId = id
      · simp [ha, hid]
      · simp [ha]
    simp only [Function.comp_def, List.map_map]
    rw [hsame]
    rfl
  rw [hpairs, ← hattached]
  exact (hrows.filter _).flatMap_right _

/-- A query of the files is one of their tables. -/
theorem Answers.files {bucket : Bucket} {c : FilesCall} {x : c.reply} {s' : ChatStore}
    (h : Answers bucket (.files c) s x s') : Files.Answers c s.db x s'.db := by
  cases c with
  | uploadObject path contentType =>
      rcases h with ⟨-, rfl⟩ | ⟨-, rfl, -⟩
      · rfl
      · rfl
  | removeObject path =>
      rcases h with rfl | ⟨-, rfl⟩
      · rfl
      · rfl
  | _ => exact h.1

/-- What a conversation consists of: the messages of the agreement in the order of their times, each with
the files that are attached to it. -/
structure IsConversation (db : FilesDb) (agreementId : String) (messages : List SentMessage) : Prop where
  all : (messages.map SentMessage.message).Perm (messagesOf db agreementId)
  ordered : (messages.map SentMessage.message).Pairwise fun m m' => m.createdAt ≤ m'.createdAt
  attached : ∀ m ∈ messages, m.attachments.Perm ((attachedTo db m.message.id).map toPublicFile)

theorem withAttachments_answered {messages : List AgreementMessage} {bucket : Bucket}
    (hall : messages.Perm (messagesOf s.db agreementId))
    (hordered : messages.Pairwise fun m m' => m.createdAt ≤ m'.createdAt) :
    Ensures (Answers bucket) (withAttachments messages) s fun out s' => s' = s ∧
      ∃ conversation, out = .ok conversation ∧ IsConversation s.db agreementId conversation := by
  rw [withAttachments]
  split
  · rename_i hnone
    subst hnone
    exact ⟨rfl, [], rfl, hall, hordered, by simp⟩
  · refine Calls.ensures_ask fun x s₁ hx => ?_
    obtain ⟨rfl, rows, rfl, hrows⟩ := hx
    refine ⟨rfl, _, rfl, ?_, ?_, ?_⟩
    · simpa [Function.comp_def] using hall
    · simpa [Function.comp_def] using hordered
    · intro m hm
      obtain ⟨message, hmessage, rfl⟩ := List.mem_map.mp hm
      rw [filesOf_byMessage]
      exact filesFor_perm hrows (List.mem_map_of_mem hmessage)

/-- **Reading a conversation.** When all queries are answered, a conversation is read by those who may
access the agreement, and it is all there. -/
theorem getMessages_answered {bucket : Bucket} :
    Ensures (Answers bucket) (getMessages userId agreementId) s fun out s' => s'.db = s.db ∧
      ((∃ messages, out = .ok messages) ↔
        mayAccess s.db.agreement userId (uuidOf agreementId) = true) ∧
      ∀ messages, out = .ok messages → IsConversation s.db agreementId messages := by
  have haccess : Ensures (Answers bucket) (ofFiles (assertCanAccessAgreement userId agreementId)) s
      fun out s' => s'.db = s.db ∧
        (out = .ok () ↔ mayAccess s.db.agreement userId (uuidOf agreementId) = true) :=
    Calls.Ensures.embed ChatStore.db assertAgreementAccess_answered
      fun _ _ _ _ h => h.files
  refine Calls.ensures_bind.mpr (haccess.mono ?_)
  rintro out s₁ ⟨hsame, hout⟩
  constructor
  · rintro u rfl
    refine Calls.ensures_ask fun x s₂ hx => ?_
    obtain ⟨rfl, rows, rfl, hall, hordered⟩ := hx
    refine (withAttachments_answered hall hordered).mono ?_
    rintro out s₃ ⟨rfl, conversation, rfl, hconversation⟩
    refine ⟨hsame, iff_of_true ⟨_, rfl⟩ (hout.mp rfl), fun messages heq => ?_⟩
    cases heq
    rw [← hsame]
    exact hconversation
  · rintro e rfl
    refine ⟨hsame, iff_of_false (by simp) fun h => ?_, by simp⟩
    cases hout.mpr h

end Reading

/-! ## What a call does to the rows -/

/-- A call with its reply. -/
abbrev Entry := (c : ChatCall) × c.reply

/-- The call has inserted a message, or attachments. -/
def Entry.sends (e : Entry) : Bool :=
  match e.1, e.2 with
  | .files (.insertMessage _), .ok _ => true
  | .files (.insertAttachments _), .ok _ => true
  | _, _ => false

/-- What a call does to files, messages and attachments. -/
inductive RowStep (e : Entry) (s s' : ChatStore) : Prop where
  | uploaded (new : Files.NewFile) (row : StoredFile)
      (hentry : e = ⟨.files (.insertFile new), .ok row⟩) (hrow : row = new.row row.createdAt)
      (hrefusal : s.db.refusal new = none) (hfiles : s'.db.files = s.db.files ++ [row])
      (hmessages : s'.db.messages = s.db.messages) (hattachments : s'.db.attachments = s.db.attachments)
  | sent (new : NewMessage) (m : AgreementMessage)
      (hentry : e = ⟨.files (.insertMessage new), .ok m⟩) (hrow : m = new.row m.id m.createdAt)
      (hfresh : ∀ old ∈ s.db.messages, old.id ≠ m.id) (hfiles : s'.db.files = s.db.files)
      (hmessages : s'.db.messages = s.db.messages ++ [m])
      (hattachments : s'.db.attachments = s.db.attachments)
  | attached (rows : List Attachment) (hentry : e = ⟨.files (.insertAttachments rows), .ok ()⟩)
      (hrefusal : s.db.attachmentsRefusal rows = none) (hfiles : s'.db.files = s.db.files)
      (hmessages : s'.db.messages = s.db.messages)
      (hattachments : s'.db.attachments = s.db.attachments ++ rows)
  | deleted (id : String) (hcall : e.1 = .files (.agreement (.deleteAgreement id)))
      (hfiles : s'.db.files = s.db.files.filter fun f => f.agreementId ≠ some id)
      (hmessages : s'.db.messages = s.db.messages)
      (hattachments : s'.db.attachments = s.db.attachments.filter fun a =>
        s'.db.files.any fun f => f.id = a.fileId)
  | other (hsends : e.sends = false) (hfiles : s'.db.files = s.db.files)
      (hmessages : s'.db.messages = s.db.messages)
      (hattachments : s'.db.attachments = s.db.attachments)

section Rows

variable {bucket : Bucket} {c : ChatCall} {s s' : ChatStore} {x : c.reply}

/-- The call leaves the rows alone. -/
theorem rowStep_same {e : Entry} (hdb : s'.db = s.db) (hsends : e.sends = false) : RowStep e s s' :=
  .other hsends (by rw [hdb]) (by rw [hdb]) (by rw [hdb])

theorem Executes.rowStep (h : Executes bucket c s x s') : RowStep ⟨c, x⟩ s s' := by
  cases c with
  | findMessages agreementId =>
      have hsame : s' = s := by
        rcases h with ⟨hsame, -⟩ | ⟨-, hsame⟩
        · exact hsame
        · exact hsame
      exact rowStep_same (by rw [hsame]) rfl
  | findAttachments messageIds =>
      have hsame : s' = s := by
        rcases h with ⟨hsame, -⟩ | ⟨-, hsame⟩
        · exact hsame
        · exact hsame
      exact rowStep_same (by rw [hsame]) rfl
  | files c =>
      rcases h with hanswers | ⟨hfails, -⟩
      · have hanswers := hanswers.files
        -- an answered query writes to the one table it names
        cases c with
        | agreement c =>
            obtain ⟨agreement, -, hdb⟩ := hanswers
            cases c with
            | deleteAgreement id =>
                refine .deleted id rfl (by rw [hdb]; rfl) (by rw [hdb]; rfl) ?_
                rw [hdb]
                rfl
            | _ => exact .other rfl (by rw [hdb]; rfl) (by rw [hdb]; rfl) (by rw [hdb]; rfl)
        | uploadObject path contentType => exact rowStep_same hanswers rfl
        | removeObject path => exact rowStep_same hanswers rfl
        | createSignedUrl path ttl download => exact rowStep_same hanswers rfl
        | findFiles ids => exact rowStep_same hanswers.2 rfl
        | insertFile new =>
            simp only [Files.Answers] at hanswers
            split at hanswers
            · exact rowStep_same hanswers.2 rfl
            · rename_i hrefusal
              obtain ⟨created, rfl, hdb⟩ := hanswers
              exact .uploaded new _ rfl rfl hrefusal (by rw [hdb]) (by rw [hdb]) (by rw [hdb])
        | insertMessage new =>
            obtain ⟨id, created, hfresh, rfl, hdb⟩ := hanswers
            exact .sent new _ rfl rfl hfresh (by rw [hdb]) (by rw [hdb]) (by rw [hdb])
        | insertAttachments rows =>
            simp only [Files.Answers] at hanswers
            split at hanswers
            · obtain ⟨rfl, hdb⟩ := hanswers
              exact rowStep_same hdb rfl
            · rename_i hrefusal
              obtain ⟨rfl, hdb⟩ := hanswers
              exact .attached rows rfl hrefusal (by rw [hdb]) (by rw [hdb]) (by rw [hdb])
      · -- a failed query writes nothing, and the storage has its failures among its answers
        cases c with
        | uploadObject path contentType => exact hfails.elim
        | removeObject path => exact hfails.elim
        | createSignedUrl path ttl download => exact hfails.elim
        | agreement c => exact rowStep_same hfails.2 rfl
        | insertFile new =>
            obtain ⟨⟨e, rfl⟩, hdb⟩ := hfails
            exact rowStep_same hdb rfl
        | findFiles ids => exact rowStep_same hfails.2 rfl
        | insertMessage new =>
            obtain ⟨⟨e, rfl⟩, hdb⟩ := hfails
            exact rowStep_same hdb rfl
        | insertAttachments rows =>
            obtain ⟨⟨e, rfl⟩, hdb⟩ := hfails
            exact rowStep_same hdb rfl

end Rows

/-! ## Files of one agreement -/

/-- No upload is given an id that names a file of another agreement. -/
def NamedBy (scope : String → Option String) (_ : ChatConfig) (l : ChatLabel) : Prop :=
  ∀ t userId wallet agreementId id file rest,
    l = .start t ⟨.files (.upload userId wallet agreementId id file), rest⟩ →
      agreementId.map uuidOf = scope id

/-- The file belongs to the agreement, or to none. -/
def BelongsTo (scope : String → Option String) (fileId agreementId : String) : Prop :=
  scope fileId = none ∨ scope fileId = some agreementId

/-- The file is of the agreement that its id names, under the spelling that is stored. -/
structure Scoped (scope : String → Option String) (f : StoredFile) : Prop where
  nonempty : f.agreementId ≠ some ""
  named : f.agreementId = scope f.id
  written : f.agreementId.map uuidOf = f.agreementId

/-- What a reply says of every store from then on. -/
def Tells (scope : String → Option String) : (c : ChatCall) → c.reply → ChatStore → Prop
  | .files (.findFiles _), .ok rows, _ => ∀ f ∈ rows, Scoped scope f
  | .files (.insertMessage new), .ok m, s => m ∈ s.db.messages ∧ m = new.row m.id m.createdAt
  | .findMessages agreementId, .ok rows, s =>
      ∀ m ∈ rows, m ∈ s.db.messages ∧ m.agreementId = uuidOf agreementId
  | .findAttachments _, .ok rows, s => ∀ row ∈ rows, ∃ m ∈ s.db.messages, m.id = row.messageId ∧
      ∀ f ∈ row.files.toList, BelongsTo scope f.id m.agreementId
  | _, _, _ => True

/-- What every run keeps of the rows: messages have ids of their own, files are of the agreements that
their ids name, and attachments of the agreements of their messages. -/
structure RowsInv (scope : String → Option String) (db : FilesDb) : Prop where
  keyed : Table.Unique AgreementMessage.id db.messages
  ofScope : ∀ f ∈ db.files, f.id ≠ "" ∧ Scoped scope f
  attached : ∀ a ∈ db.attachments, ∃ m ∈ db.messages, m.id = a.messageId ∧
    BelongsTo scope a.fileId m.agreementId

/-- What every run keeps. -/
structure ThreadInv (scope : String → Option String) (c : ChatConfig) : Prop where
  ruled : Ruled Orderly Ended c
  recalling : Recalling (fun _ => Tells scope) c
  named : ∀ t userId wallet agreementId id file rest, c.threads t =
    some ⟨.files (.upload userId wallet agreementId id file), rest⟩ → agreementId.map uuidOf = scope id
  rows : RowsInv scope c.shared.db

section Scopes

variable {scope : String → Option String} {bucket : Bucket} {c : ChatCall} {s s' : ChatStore}
  {x : c.reply}

/-- Messages stay. -/
theorem RowStep.messages {e : Entry} (h : RowStep e s s') :
    ∀ m ∈ s.db.messages, m ∈ s'.db.messages := by
  intro m hm
  cases h with
  | sent new m' hentry hrow hfresh hfiles hmessages hattachments =>
      rw [hmessages]
      exact List.mem_append_left _ hm
  | uploaded new row hentry hrow hrefusal hfiles hmessages hattachments => rwa [hmessages]
  | attached rows hentry hrefusal hfiles hmessages hattachments => rwa [hmessages]
  | deleted id hcall hfiles hmessages hattachments => rwa [hmessages]
  | other hsends hfiles hmessages hattachments => rwa [hmessages]

/-- What was said stays right. -/
theorem Tells.grow (h : Tells scope c x s) (hmessages : ∀ m ∈ s.db.messages, m ∈ s'.db.messages) :
    Tells scope c x s' := by
  cases c with
  | findMessages agreementId =>
      cases x with
      | error e => trivial
      | ok rows => exact fun m hm => ⟨hmessages m (h m hm).1, (h m hm).2⟩
  | findAttachments messageIds =>
      cases x with
      | error e => trivial
      | ok rows =>
          intro row hrow
          obtain ⟨m, hm, hid, hfiles⟩ := h row hrow
          exact ⟨m, hmessages m hm, hid, hfiles⟩
  | files c =>
      cases c with
      | findFiles ids =>
          cases x with
          | error e => trivial
          | ok rows => exact h
      | insertMessage new =>
          cases x with
          | error e => trivial
          | ok m => exact ⟨hmessages m h.1, h.2⟩
      | _ => trivial

/-- A reply is right about the store it leaves. -/
theorem Executes.tells (h : Executes bucket c s x s') (hrows : RowsInv scope s.db) :
    Tells scope c x s' := by
  cases c with
  | findMessages agreementId =>
      rcases h with ⟨rfl, rows, rfl, hperm, -⟩ | ⟨⟨e, rfl⟩, -⟩
      · intro m hm
        obtain ⟨hm, hof⟩ := List.mem_filter.mp (hperm.mem_iff.mp hm)
        exact ⟨hm, of_decide_eq_true hof⟩
      · trivial
  | findAttachments messageIds =>
      rcases h with ⟨rfl, rows, rfl, hperm⟩ | ⟨⟨e, rfl⟩, -⟩
      · intro row hrow
        -- the attachments come joined with their files, in any order
        have hpair := hperm.mem_iff.mp
          (List.mem_map_of_mem (f := fun row : AttachmentRow => (row.messageId, row.files.toList)) hrow)
        obtain ⟨a, ha, heq⟩ := List.mem_map.mp hpair
        obtain ⟨hid, hfiles⟩ := Prod.mk.inj heq
        obtain ⟨m, hm, hmessage, hbelongs⟩ := hrows.attached a (List.mem_of_mem_filter ha)
        refine ⟨m, hm, hmessage.trans hid, fun f hf => ?_⟩
        rw [← hfiles] at hf
        obtain ⟨g, hg, rfl⟩ := List.mem_map.mp hf
        have hgid : g.id = a.fileId := by simpa using (List.mem_filter.mp hg).2
        change BelongsTo scope g.id m.agreementId
        rw [hgid]
        exact hbelongs
      · trivial
  | files c =>
      cases c with
      | findFiles ids =>
          cases x with
          | error e => trivial
          | ok rows =>
              intro f hf
              rcases h with ⟨⟨⟨rows', heq, hperm⟩, -⟩, -⟩ | ⟨⟨⟨e, he⟩, -⟩, -⟩
              · cases heq
                exact (hrows.ofScope f (List.mem_of_mem_filter (hperm.mem_iff.mp hf))).2
              · cases he
      | insertMessage new =>
          cases x with
          | error e => trivial
          | ok m =>
              rcases h with ⟨⟨id, created, -, heq, hdb⟩, -⟩ | ⟨⟨⟨e, he⟩, -⟩, -⟩
              · cases heq
                refine ⟨?_, rfl⟩
                rw [hdb]
                exact List.mem_append_right _ (List.mem_singleton_self _)
              · cases he
      | _ => trivial

/-- A file that is not of another agreement is of this one, or of none. -/
theorem belongsTo_of_own {f : StoredFile} {agreementId : String}
    (hown : isForeign agreementId f = false) (h : Scoped scope f) :
    BelongsTo scope f.id (uuidOf agreementId) := by
  rw [BelongsTo, ← h.named]
  cases hid : f.agreementId with
  | none => exact .inl rfl
  | some a =>
      have hne : a ≠ "" := by
        rintro rfl
        exact h.nonempty hid
      have hsame : a = agreementId := by simpa [isForeign, nonEmpty, hid, hne] using hown
      -- the text of the request is the one that is stored, so it is the one that is written
      have hwritten : uuidOf a = a := by simpa [hid] using h.written
      rw [← hsame, hwritten]
      exact .inr rfl

/-- Rows that are attached name rows that are there. -/
theorem FilesDb.files_of_attachmentsRefusal {db : FilesDb} {rows : List Attachment}
    (h : db.attachmentsRefusal rows = none) : ∀ r ∈ rows, ∃ f ∈ db.files, f.id = r.fileId := by
  intro r hr
  unfold FilesDb.attachmentsRefusal at h
  split at h
  · cases h
  · split at h
    · cases h
    · rename_i hreferences
      by_contra hmissing
      exact hreferences ⟨r, hr, .inr fun f hf heq => hmissing ⟨f, hf, heq⟩⟩

/-- **Step lemma.** A call that keeps to the rules keeps the rows right. -/
theorem RowsInv.step {req : ChatRequest} {history : ChatHistory} (h : RowsInv scope s.db)
    (hrule : Orderly req c history) (hheld : Calls.Held (Tells scope) history s)
    (hnamed : ∀ userId wallet agreementId id file,
      req = .files (.upload userId wallet agreementId id file) → agreementId.map uuidOf = scope id)
    (hstep : RowStep ⟨c, x⟩ s s') : RowsInv scope s'.db := by
  have hkept := hstep.messages
  have hold : ∀ a ∈ s.db.attachments, ∃ m ∈ s'.db.messages, m.id = a.messageId ∧
      BelongsTo scope a.fileId m.agreementId := by
    intro a ha
    obtain ⟨m, hm, hid, hbelongs⟩ := h.attached a ha
    exact ⟨m, hkept m hm, hid, hbelongs⟩
  cases hstep with
  | uploaded new row hentry hrow hrefusal hfiles hmessages hattachments =>
      obtain ⟨hcall, -⟩ := Sigma.mk.inj hentry
      rw [hcall] at hrule
      obtain ⟨-, userId, wallet, file, hreq⟩ := hrule
      obtain ⟨hid, hempty, -⟩ := Files.FilesDb.of_refusal hrefusal
      refine ⟨hmessages ▸ h.keyed, ?_, hattachments ▸ hold⟩
      rw [hfiles]
      refine List.forall_mem_append.mpr ⟨h.ofScope, List.forall_mem_singleton.mpr ?_⟩
      rw [hrow]
      have hwritten : (new.agreementId.map uuidOf).map uuidOf = new.agreementId.map uuidOf := by
        simp [Function.comp_def]
      exact ⟨hid, hempty, hnamed userId wallet _ _ file hreq, hwritten⟩
  | sent new m hentry hrow hfresh hfiles hmessages hattachments =>
      refine ⟨?_, hfiles ▸ h.ofScope, hattachments ▸ hold⟩
      rw [hmessages]
      exact h.keyed.concat hfresh
  | attached rows hentry hrefusal hfiles hmessages hattachments =>
      obtain ⟨hcall, -⟩ := Sigma.mk.inj hentry
      rw [hcall] at hrule
      obtain ⟨-, ⟨new, m, hinserted, hattaches⟩, -⟩ := hrule
      refine ⟨hmessages ▸ h.keyed, hfiles ▸ h.ofScope, ?_⟩
      rw [hattachments]
      refine List.forall_mem_append.mpr ⟨hold, fun r hr => ?_⟩
      -- the message was inserted before, and the file was found before
      obtain ⟨hm, hrow⟩ := hheld _ hinserted
      obtain ⟨hmessage, hfile⟩ := hattaches r hr
      obtain ⟨g, hg, hgid⟩ := FilesDb.files_of_attachmentsRefusal hrefusal r hr
      have hne : r.fileId ≠ "" := hgid ▸ (h.ofScope g hg).1
      obtain ⟨f, ⟨unique, found, hfound, hf⟩, hfid, hown⟩ := hfile hne
      have hscoped : Scoped scope f := hheld _ hfound f hf
      refine ⟨m, hmessages ▸ hm, hmessage.symm, ?_⟩
      have hagreement : m.agreementId = uuidOf new.agreementId := by
        rw [hrow]
        rfl
      rw [hagreement, ← hfid]
      exact belongsTo_of_own hown hscoped
  | deleted id hcall hfiles hmessages hattachments =>
      refine ⟨hmessages ▸ h.keyed, ?_, ?_⟩
      · rw [hfiles]
        exact fun f hf => h.ofScope f (List.mem_of_mem_filter hf)
      · rw [hattachments]
        exact fun a ha => hold a (List.mem_of_mem_filter ha)
  | other hsends hfiles hmessages hattachments =>
      exact ⟨hmessages ▸ h.keyed, hfiles ▸ h.ofScope, hattachments ▸ hold⟩

end Scopes

section Integrity

variable {F : FloatArithmetic} {scope : String → Option String} {c c' : ChatConfig} {l : ChatLabel}

/-- **Step lemma.** -/
theorem ThreadInv.step (h : ThreadInv scope c)
    (hstep : ((chatSystem F).restrict (NamedBy scope)).step c l c') : ThreadInv scope c' := by
  obtain ⟨hguard, hstep⟩ := hstep
  have hruled : Ruled Orderly Ended c' :=
    h.ruled.step (fun req => ⟨_, rfl, program_orderly F req⟩) hstep
  -- messages are neither changed nor deleted, so what was read of them stays true
  have hkept : ∀ m ∈ c.shared.db.messages, m ∈ c'.shared.db.messages := by
    cases Calls.step_cases hstep with
    | start t req hfree => exact fun _ hm => hm
    | act t bucket req call cont x s hk hexec => exact hexec.rowStep.messages
    | env wallet s hb =>
        obtain rfl : s = _ := hb
        exact fun _ hm => hm
  have hrecalling : Recalling (fun _ => Tells scope) c' := by
    refine h.recalling.step (S := chatServing F) (fun req => ⟨_, rfl⟩) ?_ ?_ hstep
    · intro bucket req call x s hexec
      exact hexec.tells h.rows
    · intro t k hk hheld e he
      exact (hheld e he).grow hkept
  cases Calls.step_cases hstep with
  | start t req hfree =>
      refine ⟨hruled, hrecalling, fun t' userId wallet agreementId id file rest hk' => ?_, h.rows⟩
      rcases Threads.update_eq_some hk' with ⟨-, hself⟩ | ⟨-, hother⟩
      · cases hself
        exact hguard _ _ _ _ _ _ _ rfl
      · exact h.named t' userId wallet agreementId id file rest hother
  | act t bucket req call cont x s hk hexec =>
      have hnamed : ∀ userId wallet agreementId id file,
          req = .files (.upload userId wallet agreementId id file) →
            agreementId.map uuidOf = scope id := by
        rintro userId wallet agreementId id file rfl
        exact h.named t userId wallet agreementId id file _ hk
      refine ⟨hruled, hrecalling, fun t' userId wallet agreementId id file rest hk' => ?_, ?_⟩
      · rcases Threads.update_eq_some hk' with ⟨-, hself⟩ | ⟨-, hother⟩
        · cases hself
          exact hnamed userId wallet agreementId id file rfl
        · exact h.named t' userId wallet agreementId id file rest hother
      · have hheld : Calls.Held (Tells scope) call.2 c.shared := h.recalling.held t _ hk
        exact h.rows.step (h.ruled.next hk).1 hheld hnamed hexec.rowStep
  | env wallet s hb =>
      obtain rfl : s = _ := hb
      exact ⟨hruled, hrecalling, h.named, ⟨h.rows.keyed, h.rows.ofScope, h.rows.attached⟩⟩

/-- **Run lemma.** -/
theorem threadInv_of_reachable (h : ((chatSystem F).restrict (NamedBy scope)).Reachable c) :
    ThreadInv scope c := by
  refine StepSystem.invariant_of_steps (M := (chatSystem F).restrict (NamedBy scope))
    (I := ThreadInv scope) ?_ ?_ h
  · rintro c ⟨⟨hfiles, hmessages, hattachments, -⟩, hnone⟩
    refine ⟨Calls.ruled_of_none hnone, Calls.recalling_of_none hnone, ?_, ⟨?_, ?_, ?_⟩⟩
    · intro t userId wallet agreementId id file rest hk
      rw [hnone t] at hk
      cases hk
    · simp [hmessages, Table.Unique]
    · simp [hfiles]
    · simp [hattachments]
  · intro c l c' _ hI hstep
    exact hI.step hstep

/-- **Conversations keep to their agreement.** As long as no id is given to files of two agreements, no
file of another agreement is ever attached to a message; and whoever was answered with a conversation has
messages of that agreement, with files of that agreement and of none. -/
theorem conversations_keep_to_their_agreement
    (h : ((chatSystem F).restrict (NamedBy scope)).Reachable c) :
    (∀ a ∈ c.shared.db.attachments, ∀ m ∈ c.shared.db.messages, m.id = a.messageId →
      ∀ f ∈ c.shared.db.files, f.id = a.fileId →
        f.agreementId = none ∨ f.agreementId = some m.agreementId) ∧
    ∀ t userId agreementId messages history,
      c.threads t = some ⟨.getMessages userId agreementId, .done (.conversation messages, history)⟩ →
        ∀ sent ∈ messages, sent.message ∈ c.shared.db.messages ∧
          sent.message.agreementId = uuidOf agreementId ∧
          ∀ file ∈ sent.attachments, BelongsTo scope file.id (uuidOf agreementId) := by
  have hinv := threadInv_of_reachable h
  constructor
  · intro a ha m hm hmid f hf hfid
    obtain ⟨m', hm', hid, hbelongs⟩ := hinv.rows.attached a ha
    obtain rfl := hinv.rows.keyed.eq hm hm' (hmid.trans hid.symm)
    rw [(hinv.rows.ofScope f hf).2.named, hfid]
    exact hbelongs
  · intro t userId agreementId messages history hk sent hsent
    obtain ⟨-, hread⟩ := hinv.ruled.ended hk
    have hheld : Calls.Held (Tells scope) history c.shared := hinv.recalling.held t _ hk
    -- the messages of the answer were read from the table, and messages stay
    obtain ⟨hm, hof⟩ := hheld _ hread.rows sent.message (List.mem_map_of_mem hsent)
    refine ⟨hm, hof, fun file hfile => ?_⟩
    -- each file was embedded in an attachment, whose message is the one it is shown with
    obtain ⟨ids, rows, hrows, hmem⟩ := hread.attached sent hsent file hfile
    obtain ⟨row, hrow, hid, f, hf, rfl⟩ := mem_filesFor.mp hmem
    obtain ⟨m, hm', hmid, hbelongs⟩ := hheld _ hrows row hrow
    obtain rfl := hinv.rows.keyed.eq hm hm' (hid.symm.trans hmid.symm)
    rw [← hof]
    exact hbelongs f hf

end Integrity

/-! ## A conversation with a file -/

section Example

open Agreements (exactArithmetic)
open Calls (Move)

/-- Every file is of the agreement `i`. -/
def onlyScope (_ : String) : Option String := some "i"

/-- The move is no upload for another agreement, or for none. -/
def namesOnly (_ : ChatStore) (_ : List ChatTask) : Move ChatRequest → Bool
  | .start (.files (.upload _ _ agreementId id _)) => agreementId.map uuidOf = onlyScope id
  | _ => true

theorem namedBy_of_namesOnly {s : ChatStore} {tasks : List ChatTask} {m : Move ChatRequest}
    (h : namesOnly s tasks m = true) : NamedBy onlyScope (Calls.begun s tasks)
      (m.label (chatServing exactArithmetic) .reliable tasks) := by
  rintro t userId wallet agreementId id file rest hl
  cases m with
  | next t' => cases hl
  | start req =>
      obtain ⟨-, hreq⟩ := Threads.Label.start.inj hl
      cases hreq
      exact of_decide_eq_true h

/-- The task has ended with a conversation that shows the file `f`. -/
def showsFile (k : ChatTask) : Bool :=
  match k.request, k.rest with
  | .getMessages "payer" "i", .done (.conversation messages, _) =>
      messages.any fun sent => sent.attachments.any fun file => file.id = "f"
  | _, _ => false

theorem conversations_keep_to_their_agreement_receipt : ∃ c,
    ((chatSystem exactArithmetic).restrict (NamedBy onlyScope)).Reachable c ∧
      c.shared.db.attachments ≠ [] ∧
      ∀ a ∈ c.shared.db.attachments, ∀ m ∈ c.shared.db.messages, m.id = a.messageId →
        ∀ f ∈ c.shared.db.files, f.id = a.fileId →
          f.agreementId = none ∨ f.agreementId = some m.agreementId := by
  have hrun : ((playChat namesOnly sendMoves).any fun state =>
      state.1.db.attachments ≠ [] ∧ state.2[3]?.any showsFile = true) = true := by decide +kernel
  obtain ⟨state, hstate, hend⟩ := (Option.any_eq_true _ _).mp hrun
  obtain ⟨hattached, -⟩ := of_decide_eq_true hend
  have hreach := reachable_playChat (fun _ _ _ => namedBy_of_namesOnly) hstate
  exact ⟨_, hreach, hattached, (conversations_keep_to_their_agreement hreach).1⟩

end Example

end ThalosBackend.AgreementChat
