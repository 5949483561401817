import ThalosBackend.Files.FileAccess

/-!
# Sending a message is all or nothing

`sendMessage` inserts the message before its attachments, and the attachments are one insert that the
key of `agreement_message_attachments` can refuse. When every query is answered, this is the only
thing that can go wrong after the message is stored: the files have been read, so they are there, and
the message is new. A repeated attachment id violates the key. An agreement that is named by another
spelling of its id is found like any other: its own files pass for those of another one then, but files of
none do not.

So a request that throws leaves nothing behind exactly when its attachment ids are distinct, or it is
refused before the message is inserted (`sendMessage_allOrNothing_iff`).
-/

set_option autoImplicit false

namespace ThalosBackend.Files

open Agreements (AgreementCall)

/-! ## The constraints of the attachments -/

/-- The key and the references of `agreement_message_attachments`. -/
structure FilesDb.Constrained (db : FilesDb) : Prop where
  keyed : db.attachments.Nodup
  messages : ∀ a ∈ db.attachments, ∃ m ∈ db.messages, m.id = a.messageId
  files : ∀ a ∈ db.attachments, ∃ f ∈ db.files, f.id = a.fileId

/-- A deleted agreement takes its files with it, and these take their attachments. -/
theorem FilesDb.Constrained.cascade {db : FilesDb} (h : db.Constrained) (c : AgreementCall) :
    (db.cascade c).Constrained := by
  cases c with
  | deleteAgreement id =>
      refine ⟨h.keyed.filter _, fun a ha => ?_, fun a ha => ?_⟩
      · exact h.messages a (List.mem_of_mem_filter ha)
      · have hkept : ∃ f ∈ db.files, f.agreementId ≠ some id ∧ f.id = a.fileId := by
          simpa using (List.mem_filter.mp ha).2
        obtain ⟨f, hf, hother, hid⟩ := hkept
        exact ⟨f, List.mem_filter.mpr ⟨hf, by simpa using hother⟩, hid⟩
  | _ => exact h

/-- Rows that are not refused keep the constraints. -/
theorem FilesDb.Constrained.insertAttachments {db : FilesDb} {rows : List Attachment}
    (h : db.Constrained) (hrows : db.attachmentsRefusal rows = none) :
    FilesDb.Constrained { db with attachments := db.attachments ++ rows } := by
  unfold FilesDb.attachmentsRefusal at hrows
  split at hrows
  · cases hrows
  · rename_i hkeyed
    split at hrows
    · cases hrows
    · rename_i hreferences
      have hthere : ∀ r ∈ rows, (∃ m ∈ db.messages, m.id = r.messageId) ∧
          ∃ f ∈ db.files, f.id = r.fileId := by
        intro r hr
        by_contra hmissing
        refine hreferences ⟨r, hr, ?_⟩
        rcases not_and_or.mp hmissing with hmessage | hfile
        · exact .inl fun m hm heq => hmessage ⟨m, hm, heq⟩
        · exact .inr fun f hf heq => hfile ⟨f, hf, heq⟩
      exact {
        keyed := not_not.mp hkeyed
        messages := List.forall_mem_append.mpr ⟨h.messages, fun r hr => (hthere r hr).1⟩
        files := List.forall_mem_append.mpr ⟨h.files, fun r hr => (hthere r hr).2⟩ }

/-- **Every call keeps the constraints.** -/
theorem Executes.constrained {c : FilesCall} {db db' : FilesDb} {x : c.reply}
    (hexec : Executes c db x db') (h : db.Constrained) : db'.Constrained := by
  rcases hexec with hanswers | hfails
  · cases c with
    | agreement c =>
        obtain ⟨agreement, -, rfl⟩ := hanswers
        have hsame : FilesDb.Constrained { db with agreement := agreement } :=
          ⟨h.keyed, h.messages, h.files⟩
        exact hsame.cascade c
    | insertFile new =>
        simp only [Answers] at hanswers
        split at hanswers
        · exact hanswers.2 ▸ h
        · obtain ⟨created, -, rfl⟩ := hanswers
          refine ⟨h.keyed, h.messages, fun a ha => ?_⟩
          obtain ⟨f, hf, hid⟩ := h.files a ha
          exact ⟨f, List.mem_append_left _ hf, hid⟩
    | insertMessage new =>
        obtain ⟨id, created, -, -, rfl⟩ := hanswers
        refine ⟨h.keyed, fun a ha => ?_, h.files⟩
        obtain ⟨m, hm, hid⟩ := h.messages a ha
        exact ⟨m, List.mem_append_left _ hm, hid⟩
    | insertAttachments rows =>
        simp only [Answers] at hanswers
        split at hanswers
        · exact hanswers.2 ▸ h
        · -- an insert of attachments is checked against both foreign keys
          rename_i hrows
          exact hanswers.2 ▸ h.insertAttachments hrows
    | findFiles ids => exact hanswers.2 ▸ h
    | uploadObject path contentType => exact hanswers ▸ h
    | removeObject path => exact hanswers ▸ h
    | createSignedUrl path ttl download => exact hanswers ▸ h
  · have hsame : db' = db := by
      cases c with
      | uploadObject path contentType => exact hfails.elim
      | removeObject path => exact hfails.elim
      | createSignedUrl path ttl download => exact hfails.elim
      | _ => exact hfails.2
    exact hsame ▸ h

end ThalosBackend.Files

namespace ThalosBackend.AgreementChat

open Agreements (AgreementProgram Silent mayAccess ownWallets)
open Calls (Ensures Runs)
open Files (Answers AgreementMessage Attachment FilesDb NewMessage StoredFile assertAgreementAccess
  assertReadable checkedFiles ofAgreements readableFiles)
open Js (nonEmpty trim)

/-! ## The checks before the message -/

section Checks

variable {db : FilesDb} {userId agreementId : String}

/-- A silent program of the agreements that leaves their tables as they are leaves the files too. -/
theorem answered_ofAgreements {α : Type} {p : AgreementProgram α}
    {Q : Except HttpException α → Prop} (hsilent : Silent p)
    (h : Ensures Agreements.Answers p db.agreement fun out agreement =>
      agreement = db.agreement ∧ Q out) :
    Ensures Answers (ofAgreements p) db fun out db' => db' = db ∧ Q out := by
  -- in between, only the tables of the agreements may differ
  have hstrong : ∀ (p : AgreementProgram α) (agreement : Agreements.AgreementDb), Silent p →
      Ensures Agreements.Answers p agreement (fun out agreement =>
        agreement = db.agreement ∧ Q out) →
      Ensures Answers (ofAgreements p) { db with agreement := agreement } fun out db' =>
        db' = db ∧ Q out := by
    intro p
    induction p with
    | done a =>
        rintro agreement - ⟨rfl, hQ⟩
        exact ⟨rfl, hQ⟩
    | fail e =>
        rintro agreement - ⟨rfl, hQ⟩
        exact ⟨rfl, hQ⟩
    | call c next ih =>
        rintro agreement ⟨hc, hnext⟩ hp x db₁ ⟨agreement₁, hx, rfl⟩
        have hcascade : ({ db with agreement := agreement₁ } : FilesDb).cascade c =
            { db with agreement := agreement₁ } := by
          cases c with
          | deleteAgreement id => cases hc
          | _ => rfl
        rw [hcascade]
        exact ih x agreement₁ (hnext x trivial) (hp x agreement₁ hx)
  exact hstrong p db.agreement hsilent h

theorem assertAgreementAccess_answered :
    Ensures Answers (assertAgreementAccess userId agreementId) db fun out db' =>
      db' = db ∧ (out = .ok () ↔ mayAccess db.agreement userId agreementId = true) := by
  refine answered_ofAgreements (Agreements.assertCanAccessAgreement_silent userId agreementId) ?_
  refine (Ensures.and (Calls.Ensures.of_exec Agreements.assertCanAccessAgreement_own
    Agreements.Answers.executes) Agreements.assertCanAccessAgreement_all).mono ?_
  rintro out agreement ⟨⟨hsame, -⟩, hout⟩
  exact ⟨hsame, hout⟩

theorem assertActorWallet_answered {actorWallet : String} :
    Ensures Answers (assertActorWallet userId actorWallet) db fun out db' =>
      db' = db ∧ (out = .ok () ↔ actorWallet ∈ ownWallets db.agreement userId) := by
  refine Calls.ensures_bind.mpr ((answered_ofAgreements
    (Q := fun out => ∃ wallets, out = .ok wallets ∧
      ∀ w, w ∈ wallets ↔ w ∈ ownWallets db.agreement userId)
    (Agreements.resolveUserWallets_silent userId) Agreements.resolveUserWallets_all).mono ?_)
  rintro out db₁ ⟨rfl, wallets, rfl, hwallets⟩
  refine ⟨fun found hfound => ?_, nofun⟩
  cases hfound
  rw [← hwallets]
  split
  · rename_i hforeign
    exact ⟨rfl, iff_of_false nofun hforeign⟩
  · rename_i hown
    exact ⟨rfl, iff_of_true rfl (not_not.mp hown)⟩

theorem assertReadable_answered (files : List StoredFile) :
    Ensures Answers (assertReadable userId files) db fun out db' => db' = db ∧
      (out = .ok () ↔ ∀ f ∈ files, ∀ a ∈ nonEmpty f.agreementId,
        mayAccess db.agreement userId a = true) := by
  induction files with
  | nil => exact ⟨rfl, by simp⟩
  | cons f files ih =>
      rw [assertReadable]
      cases hscope : nonEmpty f.agreementId with
      | none =>
          refine ih.mono fun out db' hout => ⟨hout.1, hout.2.trans ?_⟩
          simp [hscope]
      | some a =>
          refine Calls.ensures_bind.mpr (assertAgreementAccess_answered.mono ?_)
          rintro out db₁ ⟨rfl, hout⟩
          constructor
          · rintro u rfl
            have ha : mayAccess db₁.agreement userId a = true := hout.mp rfl
            refine ih.mono fun out db' hout => ⟨hout.1, hout.2.trans ?_⟩
            simp [hscope, ha]
          · rintro e rfl
            have ha : ¬ mayAccess db₁.agreement userId a = true := by
              intro hyes
              cases hout.mpr hyes
            refine ⟨rfl, iff_of_false (by simp) fun hall => ha ?_⟩
            exact hall f List.mem_cons_self a hscope

/-- The files are there, and the user may access the agreements they belong to. -/
structure Readable (db : FilesDb) (userId : String) (ids : List String) : Prop where
  found : ∀ id ∈ ids, ∃ f ∈ db.files, f.id = id
  readable : ∀ f ∈ db.files, f.id ∈ ids → ∀ a ∈ nonEmpty f.agreementId,
    mayAccess db.agreement userId a = true

/-- The ids that are asked for are the given ones. -/
theorem mem_unique {ids : List String} (hids : "" ∉ ids) {id : String} :
    id ∈ (ids.filter (· ≠ "")).eraseDups ↔ id ∈ ids := by
  rw [List.mem_eraseDups, List.mem_filter]
  refine and_iff_left_of_imp fun hid => ?_
  simpa using fun hempty : id = "" => hids (hempty ▸ hid)

/-- No id is missing when every one is that of a file. -/
theorem missing_eq_nil {ids unique : List String} {rows files : List StoredFile}
    (hunique : ∀ id, id ∈ unique ↔ id ∈ ids) (hrows : ∀ f, f ∈ rows ↔ f ∈ files ∧ f.id ∈ ids) :
    unique.filter (fun id => !rows.any fun f => f.id = id) = [] ↔
      ∀ id ∈ ids, ∃ f ∈ files, f.id = id := by
  rw [List.filter_eq_nil_iff]
  refine forall_congr' fun id => ?_
  rw [hunique]
  refine imp_congr_right fun hid => ?_
  simp only [Bool.not_eq_true', Bool.not_eq_false, List.any_eq_true, decide_eq_true_eq, hrows]
  constructor
  · rintro ⟨f, ⟨hf, -⟩, heq⟩
    exact ⟨f, hf, heq⟩
  · rintro ⟨f, hf, rfl⟩
    exact ⟨f, ⟨hf, hid⟩, rfl⟩

/-- What is returned are the rows with these ids. -/
theorem readableFiles_answered {ids : List String} (hids : "" ∉ ids) :
    Ensures Answers (readableFiles userId ids) db fun out db' => db' = db ∧
      ((∃ files, out = .ok files) ↔ Readable db userId ids) ∧
      ∀ files, out = .ok files → ∀ f, f ∈ files ↔ f ∈ db.files ∧ f.id ∈ ids := by
  rw [readableFiles]
  split
  · rename_i hnone
    have hnone : ∀ id, id ∉ ids := by
      intro id hid
      have hmem := (mem_unique hids).mpr hid
      rw [hnone] at hmem
      cases hmem
    refine ⟨rfl, iff_of_true ⟨[], rfl⟩ ⟨fun id hid => absurd hid (hnone id),
      fun f _ hf => absurd hf (hnone f.id)⟩, ?_⟩
    rintro files ⟨rfl⟩ f
    simp [hnone]
  · rintro x db₁ ⟨⟨rows, rfl, hperm⟩, rfl⟩
    have hrows : ∀ f, f ∈ rows ↔ f ∈ db₁.files ∧ f.id ∈ ids := by
      intro f
      rw [hperm.mem_iff, FilesDb.filesIn, List.mem_filter, decide_eq_true_eq, mem_unique hids]
    -- the ids that are reported missing are those of no file at all
    have hmissing := missing_eq_nil (fun id => mem_unique hids) hrows
    change Ensures Answers (checkedFiles userId _ rows) db₁ _
    unfold checkedFiles
    dsimp only
    split
    · rename_i hsome
      exact ⟨rfl, iff_of_false (by simp) fun h => hsome (hmissing.mpr h.found), by simp⟩
    · rename_i hnone
      refine Calls.ensures_bind.mpr ((assertReadable_answered rows).mono ?_)
      rintro out db₂ ⟨rfl, hout⟩
      have hreadable : out = .ok () ↔ Readable db₂ userId ids := by
        rw [hout]
        constructor
        · intro hall
          exact ⟨hmissing.mp (not_not.mp hnone), fun f hf hid => hall f ((hrows f).mpr ⟨hf, hid⟩)⟩
        · intro h f hf
          exact h.readable f ((hrows f).mp hf).1 ((hrows f).mp hf).2
      constructor
      · rintro u rfl
        refine ⟨rfl, iff_of_true ⟨rows, rfl⟩ (hreadable.mp rfl), ?_⟩
        rintro files ⟨rfl⟩
        exact hrows
      · rintro e rfl
        have hno : ¬ Readable db₂ userId ids := by
          intro h
          cases hreadable.mpr h
        exact ⟨rfl, iff_of_false (by simp) hno, by simp⟩

end Checks

/-! ## What sending leads to -/

/-- The request is not refused before the message is inserted. -/
structure Sendable (db : FilesDb) (userId : String) (dto : SendMessageDto) : Prop where
  access : mayAccess db.agreement userId (uuidOf dto.agreementId) = true
  wallet : dto.senderWallet ∈ ownWallets db.agreement userId
  content : ¬ (trim dto.message = "" ∧ dto.attachmentIds = [])
  readable : Readable db userId dto.attachmentIds
  sameAgreement : ∀ f ∈ db.files, f.id ∈ dto.attachmentIds → isForeign dto.agreementId f = false

/-- The message that is inserted. -/
def newMessage (userId : String) (dto : SendMessageDto) : NewMessage :=
  ⟨dto.agreementId, userId, dto.senderWallet, trim dto.message⟩

/-- The rows of the attachments of a message. -/
def attachmentRows (messageId : String) (ids : List String) : List Attachment :=
  ids.map fun id => ⟨messageId, id⟩

/-- How `sendMessage` ends when every query is answered. -/
inductive SendOutcome (userId : String) (dto : SendMessageDto) (db : FilesDb) :
    Except HttpException SentMessage → FilesDb → Prop where
  | refused (e : HttpException) (hrefused : ¬ Sendable db userId dto) :
      SendOutcome userId dto db (.error e) db
  | stranded (e : HttpException) (row : AgreementMessage) (hsendable : Sendable db userId dto)
      (hrepeated : ¬ dto.attachmentIds.Nodup) :
      SendOutcome userId dto db (.error e) { db with messages := db.messages ++ [row] }
  | sent (message : SentMessage) (row : AgreementMessage) (hsendable : Sendable db userId dto)
      (hdistinct : dto.attachmentIds.Nodup) :
      SendOutcome userId dto db (.ok message) { db with
        messages := db.messages ++ [row]
        attachments := db.attachments ++ attachmentRows row.id dto.attachmentIds }

section Outcome

variable {db : FilesDb} {userId : String} {dto : SendMessageDto}

/-- The attachments of a new message are refused for a repeated id, and for nothing else. -/
theorem attachmentsRefusal_newMessage (hdb : db.Constrained) {row : AgreementMessage}
    (hnew : ∀ m ∈ db.messages, m.id ≠ row.id) {ids : List String}
    (hfound : ∀ id ∈ ids, ∃ f ∈ db.files, f.id = id) :
    FilesDb.attachmentsRefusal { db with messages := db.messages ++ [row] }
      (attachmentRows row.id ids) = none ↔ ids.Nodup := by
  have hinjective : Function.Injective fun id => (⟨row.id, id⟩ : Attachment) := by
    intro id id' h
    exact (Attachment.mk.inj h).2
  have hdisjoint : db.attachments.Disjoint (attachmentRows row.id ids) := by
    intro a ha hrow
    obtain ⟨id, -, rfl⟩ := List.mem_map.mp hrow
    obtain ⟨m, hm, hid⟩ := hdb.messages _ ha
    exact hnew m hm hid
  have hkeyed : (db.attachments ++ attachmentRows row.id ids).Nodup ↔ ids.Nodup := by
    rw [List.nodup_append', attachmentRows, List.nodup_map_iff hinjective]
    exact ⟨fun h => h.2.1, fun h => ⟨hdb.keyed, h, hdisjoint⟩⟩
  have hreferences : ¬ ∃ r ∈ attachmentRows row.id ids,
      (∀ m ∈ db.messages ++ [row], m.id ≠ r.messageId) ∨ ∀ f ∈ db.files, f.id ≠ r.fileId := by
    rintro ⟨r, hr, hmissing⟩
    obtain ⟨id, hid, rfl⟩ := List.mem_map.mp hr
    rcases hmissing with hmessage | hfile
    · exact hmessage row (by simp) rfl
    · obtain ⟨f, hf, heq⟩ := hfound id hid
      exact hfile f hf heq
  rw [FilesDb.attachmentsRefusal, if_neg hreferences]
  simp only [hkeyed, ite_eq_right_iff, reduceCtorEq, imp_false, not_not]

/-- What is done with the attachments of a message that was just inserted. -/
theorem linkFiles_answered (hdb : db.Constrained) (row : AgreementMessage)
    (hnew : ∀ m ∈ db.messages, m.id ≠ row.id) {ids : List String}
    (hfound : ∀ id ∈ ids, ∃ f ∈ db.files, f.id = id) :
    Ensures Answers (linkFiles row.id ids) { db with messages := db.messages ++ [row] }
      fun out db' => (ids.Nodup ∧ out = .ok () ∧ db' = { db with
          messages := db.messages ++ [row]
          attachments := db.attachments ++ attachmentRows row.id ids }) ∨
        ¬ ids.Nodup ∧ (∃ e, out = .error e) ∧
          db' = { db with messages := db.messages ++ [row] } := by
  rw [linkFiles]
  split
  · rename_i hnone
    subst hnone
    exact .inl ⟨List.nodup_nil, rfl, by simp [attachmentRows]⟩
  · refine Calls.ensures_ask fun x db₁ hx => ?_
    have hiff := attachmentsRefusal_newMessage hdb hnew hfound
    simp only [Answers] at hx
    split at hx
    · rename_i e hrefusal
      obtain ⟨rfl, rfl⟩ := hx
      refine .inr ⟨fun hdistinct => ?_, ⟨_, rfl⟩, rfl⟩
      have hnone := hiff.mpr hdistinct
      rw [attachmentRows] at hnone
      rw [hnone] at hrefusal
      cases hrefusal
    · rename_i hrefusal
      obtain ⟨rfl, rfl⟩ := hx
      exact .inl ⟨hiff.mp hrefusal, rfl, rfl⟩

/-- **How sending ends.** -/
theorem sendMessage_outcome (hdb : db.Constrained) (hids : "" ∉ dto.attachmentIds) :
    Ensures Answers (sendMessage userId dto) db (SendOutcome userId dto db) := by
  refine Calls.ensures_bind.mpr (assertAgreementAccess_answered.mono ?_)
  rintro out db₁ ⟨rfl, haccess⟩
  refine ⟨?_, fun e he => .refused e fun h => ?_⟩
  · rintro u rfl
    refine Calls.ensures_bind.mpr (assertActorWallet_answered.mono ?_)
    rintro out db₂ ⟨rfl, hwallet⟩
    refine ⟨?_, fun e he => .refused e fun h => ?_⟩
    · rintro u rfl
      dsimp only
      split
      · rename_i hempty
        exact .refused _ fun h => h.content hempty
      · rename_i hcontent
        refine Calls.ensures_bind.mpr ((readableFiles_answered hids).mono ?_)
        rintro out db₃ ⟨rfl, hreadable, hrows⟩
        refine ⟨?_, fun e he => .refused e fun h => ?_⟩
        · rintro files rfl
          have hread := hreadable.mp ⟨files, rfl⟩
          have hforeign : files.any (isForeign dto.agreementId) = false ↔ ∀ f ∈ db₃.files,
              f.id ∈ dto.attachmentIds → isForeign dto.agreementId f = false := by
            rw [List.any_eq_false]
            simp only [hrows files rfl, and_imp, Bool.not_eq_true]
          split
          · rename_i hsome
            refine .refused _ fun h => ?_
            rw [hforeign.mpr h.sameAgreement] at hsome
            cases hsome
          · rename_i hnone
            have hsendable : Sendable db₃ userId dto :=
              ⟨haccess.mp rfl, hwallet.mp rfl, hcontent, hread, hforeign.mp (by simpa using hnone)⟩
            refine Calls.ensures_ask fun x db₄ hx => ?_
            obtain ⟨id, created, hnew, rfl, rfl⟩ := hx
            -- the message is there now; its attachments follow in a query of their own
            refine Calls.ensures_bind.mpr ((linkFiles_answered hdb
              ((newMessage userId dto).row id created) hnew hread.found).mono ?_)
            rintro out db₅ (⟨hdistinct, rfl, rfl⟩ | ⟨hrepeated, ⟨e, rfl⟩, rfl⟩)
            · exact ⟨fun u _ => .sent _ _ hsendable hdistinct, nofun⟩
            · exact ⟨nofun, fun e _ => .stranded e _ hsendable hrepeated⟩
        · subst he
          obtain ⟨files, hfiles⟩ := hreadable.mpr h.readable
          cases hfiles
    · subst he
      cases hwallet.mpr h.wallet
  · subst he
    cases haccess.mpr h.access

end Outcome

/-! ## All or nothing -/

/-- If every query is answered and the request throws, no message and no attachment is stored. -/
def AllOrNothing (db : FilesDb) (userId : String) (dto : SendMessageDto) : Prop :=
  ∀ e db', Runs Answers (sendMessage userId dto) db (.error e) db' →
    db'.messages = db.messages ∧ db'.attachments = db.attachments

/-- With a repeated id the message is stored, and the request fails. -/
theorem nodup_of_allOrNothing {db : FilesDb} (hdb : db.Constrained) {userId : String}
    {dto : SendMessageDto} (hids : "" ∉ dto.attachmentIds) (h : AllOrNothing db userId dto)
    (hsendable : Sendable db userId dto) : dto.attachmentIds.Nodup := by
  by_contra hrepeated
  have houtcome : ∀ out db', Runs Answers (sendMessage userId dto) db out db' →
      SendOutcome userId dto db out db' := Calls.ensures_iff.mp (sendMessage_outcome hdb hids)
  have hrun := Calls.runs_run (fun c db => FilesDb.answers_answer c db) (sendMessage userId dto) db
  revert hrun
  generalize (Calls.run (fun c db => FilesDb.answer c db) (sendMessage userId dto) db) = result
  obtain ⟨out, db'⟩ := result
  intro hrun
  cases houtcome out db' hrun with
  | refused e hrefused => exact hrefused hsendable
  | stranded e row _ _ =>
      have hkept := (h e _ hrun).1
      simp at hkept
  | sent message row _ hdistinct => exact hrepeated hdistinct

/-- **Sending is all or nothing** for distinct attachment ids, and where the request is refused
before the message is inserted; and only there. The ids are UUIDs, so none of them is empty. -/
theorem sendMessage_allOrNothing_iff {db : FilesDb} (hdb : db.Constrained) (userId : String)
    {dto : SendMessageDto} (hids : "" ∉ dto.attachmentIds) :
    AllOrNothing db userId dto ↔ dto.attachmentIds.Nodup ∨ ¬ Sendable db userId dto := by
  constructor
  · intro h
    by_cases hsendable : Sendable db userId dto
    · exact .inl (nodup_of_allOrNothing hdb hids h hsendable)
    · exact .inr hsendable
  · intro h e db' hrun
    have houtcome := Calls.ensures_iff.mp (sendMessage_outcome hdb hids) (.error e) db' hrun
    cases houtcome with
    | refused e _ => exact ⟨rfl, rfl⟩
    | stranded e row hsendable hrepeated =>
        rcases h with hdistinct | hrefused
        · exact absurd hdistinct hrepeated
        · exact absurd hsendable hrefused

/-! ## A repeated attachment -/

def agreementUuid : String := "0b6f0a52-6a0e-4c0e-8a53-9d6b4f1c7e21"
def fileUuid : String := "5d1c3f0e-2b7a-4a58-b1a4-6c0d8e9f7a32"

/-- An agreement of `payer`, and a file of his that belongs to none. -/
def chatStore : FilesDb where
  agreement := Agreements.storeWith Agreements.twoParties
    [(Agreements.sampleDto "10" none Agreements.splitTen).row.row agreementUuid 0] []
  files := [⟨fileUuid, "unscoped/" ++ fileUuid, "note.txt", "text/plain", 1, none, "payer", "P", 0⟩]
  messages := []
  attachments := []

/-- `payer` sends the file, as often as it is named. -/
def sendNote (times : ℕ) : SendMessageDto where
  agreementId := agreementUuid
  senderWallet := "P"
  message := "the receipt"
  attachmentIds := List.replicate times fileUuid

theorem chatStore_constrained : chatStore.Constrained :=
  ⟨List.nodup_nil, nofun, nofun⟩

theorem sendable_sendNote (times : ℕ) : Sendable chatStore "payer" (sendNote times) where
  access :=
    have hpayer : mayAccess chatStore.agreement "payer" (uuidOf agreementUuid) = true := by
      decide +kernel
    hpayer
  wallet :=
    have hown : "P" ∈ ownWallets chatStore.agreement "payer" := by decide +kernel
    hown
  content h :=
    have htext : trim "the receipt" ≠ "" := by decide +kernel
    htext h.1
  readable := by
    refine ⟨fun id hid => ⟨_, List.mem_singleton_self _, ?_⟩, fun f hf _ a ha => ?_⟩
    · exact (List.eq_of_mem_replicate hid).symm
    · obtain rfl := List.mem_singleton.mp hf
      cases ha
  sameAgreement := by
    intro f hf _
    obtain rfl := List.mem_singleton.mp hf
    rfl

/-- The file sent once arrives or leaves nothing. -/
theorem sendMessage_allOrNothing_once :
    AllOrNothing chatStore "payer" (sendNote 1) :=
  (sendMessage_allOrNothing_iff chatStore_constrained "payer" (by decide)).mpr (.inl (by decide))

/-- The file sent twice: the message is stored, and the request fails. -/
theorem not_sendMessage_allOrNothing : ¬ ∀ (db : FilesDb) (userId : String) (dto : SendMessageDto),
    db.Constrained → "" ∉ dto.attachmentIds → AllOrNothing db userId dto := by
  intro h
  have hall := h chatStore "payer" (sendNote 2) chatStore_constrained (by decide)
  have hdistinct := nodup_of_allOrNothing chatStore_constrained (by decide) hall
    (sendable_sendNote 2)
  exact absurd hdistinct (by decide)

end ThalosBackend.AgreementChat
