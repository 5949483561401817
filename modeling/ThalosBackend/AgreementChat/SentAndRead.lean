import ThalosBackend.AgreementChat.ThreadIntegrity

/-!
# What was sent is read

A message, once answered, stays in its conversation, and so do the files it was sent with, as long as no
agreement with files is deleted: the files of a message are attached by its own request and by no other,
all of them or none, and the request is not answered before.
-/

set_option autoImplicit false

namespace ThalosBackend.AgreementChat

open Agreements (mayAccess)
open Calls (Ensures Lawful Recalling Ruled historyOf)
open Files (AgreementMessage Attachment FilesCall FilesDb NewMessage StoredFile)
open Js (FloatArithmetic)

/-! ## What stays -/

/-- What a reply says of every store from then on, as long as no files are deleted. -/
def Remains : (c : ChatCall) → c.reply → ChatStore → Prop
  | .files (.findFiles unique), .ok rows, s =>
      Table.Unique StoredFile.id rows ∧ ∀ f ∈ rows, f ∈ s.db.files ∧ f.id ∈ unique
  | .files (.insertMessage new), .ok m, s => m ∈ s.db.messages ∧ m = new.row m.id m.createdAt
  | .files (.insertAttachments rows), .ok _, s => ∀ r ∈ rows, r ∈ s.db.attachments
  | _, _, _ => True

/-- The rows of a later store are those there were, and more. -/
structure Grows (db db' : FilesDb) : Prop where
  files : ∀ f ∈ db.files, f ∈ db'.files
  messages : ∀ m ∈ db.messages, m ∈ db'.messages
  attachments : ∀ a ∈ db.attachments, a ∈ db'.attachments

/-- What every run keeps of the rows: keys, and the constraints of the attachments. -/
structure KeysInv (db : FilesDb) : Prop where
  files : db.WellKeyed
  messages : Table.Unique AgreementMessage.id db.messages
  constrained : db.Constrained

section Rows

variable {bucket : Bucket} {c : ChatCall} {s s' : ChatStore} {x : c.reply}

theorem Remains.grow (h : Remains c x s) (hgrows : Grows s.db s'.db) : Remains c x s' := by
  cases c with
  | findMessages agreementId => trivial
  | findAttachments messageIds => trivial
  | files c =>
      cases c with
      | findFiles ids =>
          cases x with
          | error e => trivial
          | ok rows => exact ⟨h.1, fun f hf => ⟨hgrows.files f (h.2 f hf).1, (h.2 f hf).2⟩⟩
      | insertMessage new =>
          cases x with
          | error e => trivial
          | ok m => exact ⟨hgrows.messages m h.1, h.2⟩
      | insertAttachments rows =>
          cases x with
          | error e => trivial
          | ok _ => exact fun r hr => hgrows.attachments r (h r hr)
      | _ => trivial

/-- A reply is right about the store it leaves. -/
theorem Executes.remains (h : Executes bucket c s x s') (hkeys : KeysInv s.db) : Remains c x s' := by
  have hstep := h.rowStep
  cases c with
  | findMessages agreementId => trivial
  | findAttachments messageIds => trivial
  | files c =>
      cases c with
      | findFiles ids =>
          cases x with
          | error e => trivial
          | ok rows =>
              rcases h with ⟨⟨⟨rows', heq, hperm⟩, hdb⟩, -⟩ | ⟨⟨⟨e, he⟩, -⟩, -⟩
              · cases heq
                refine ⟨?_, fun f hf => ?_⟩
                · exact (hperm.map _).nodup_iff.mpr
                    (hkeys.files.unique.sublist (List.filter_sublist.map _))
                · obtain ⟨hf, hid⟩ := List.mem_filter.mp (hperm.mem_iff.mp hf)
                  exact ⟨hdb ▸ hf, of_decide_eq_true hid⟩
              · cases he
      | insertMessage new =>
          cases x with
          | error e => trivial
          | ok m =>
              -- of the steps of the tables only a sending has this call for its entry
              cases hstep with
              | sent new' m' hentry hrow hfresh hfiles hmessages hattachments =>
                  cases hentry
                  refine ⟨?_, hrow⟩
                  rw [hmessages]
                  exact List.mem_append_right _ (List.mem_singleton_self _)
              | uploaded new' row hentry hrow hrefusal hfiles hmessages hattachments => cases hentry
              | attached rows hentry hrefusal hfiles hmessages hattachments => cases hentry
              | deleted id hcall hfiles hmessages hattachments => cases hcall
              | other hsends hfiles hmessages hattachments => cases hsends
      | insertAttachments rows =>
          cases x with
          | error e => trivial
          | ok _ =>
              cases hstep with
              | attached rows' hentry hrefusal hfiles hmessages hattachments =>
                  cases hentry
                  intro r hr
                  rw [hattachments]
                  exact List.mem_append_right _ hr
              | sent new' m' hentry hrow hfresh hfiles hmessages hattachments => cases hentry
              | uploaded new' row hentry hrow hrefusal hfiles hmessages hattachments => cases hentry
              | deleted id hcall hfiles hmessages hattachments => cases hcall
              | other hsends hfiles hmessages hattachments => cases hsends
      | _ => trivial

/-- The rows only grow, unless files are deleted. -/
theorem RowStep.grows {e : Entry} (h : RowStep e s s') (hkeys : KeysInv s.db)
    (hguard : ∀ id, e.1 = .files (.agreement (.deleteAgreement id)) →
      ∀ f ∈ s.db.files, f.agreementId ≠ some id) : Grows s.db s'.db := by
  refine ⟨?_, h.messages, ?_⟩
  · cases h with
    | uploaded new row hentry hrow hrefusal hfiles hmessages hattachments => simp +contextual [hfiles]
    | deleted id hcall hfiles hmessages hattachments =>
        intro f hf
        rw [hfiles]
        exact List.mem_filter.mpr ⟨hf, by simpa using hguard id hcall f hf⟩
    | sent new m hentry hrow hfresh hfiles hmessages hattachments => simp [hfiles]
    | attached rows hentry hrefusal hfiles hmessages hattachments => simp [hfiles]
    | other hsends hfiles hmessages hattachments => simp [hfiles]
  · cases h with
    | attached rows hentry hrefusal hfiles hmessages hattachments => simp +contextual [hattachments]
    | deleted id hcall hfiles hmessages hattachments =>
        intro a ha
        obtain ⟨f, hf, hid⟩ := hkeys.constrained.files a ha
        rw [hattachments, hfiles]
        refine List.mem_filter.mpr ⟨ha, List.any_eq_true.mpr ⟨f, ?_, by simpa using hid⟩⟩
        exact List.mem_filter.mpr ⟨hf, by simpa using hguard id hcall f hf⟩
    | uploaded new row hentry hrow hrefusal hfiles hmessages hattachments => simp [hattachments]
    | sent new m hentry hrow hfresh hfiles hmessages hattachments => simp [hattachments]
    | other hsends hfiles hmessages hattachments => simp [hattachments]

/-- Every call keeps the constraints of the attachments. -/
theorem Executes.constrained (h : Executes bucket c s x s') (hdb : s.db.Constrained) :
    s'.db.Constrained := by
  cases c with
  | findMessages agreementId =>
      rcases h with ⟨rfl, -⟩ | ⟨-, rfl⟩
      · exact hdb
      · exact hdb
  | findAttachments messageIds =>
      rcases h with ⟨rfl, -⟩ | ⟨-, rfl⟩
      · exact hdb
      · exact hdb
  | files c =>
      have hexec : Files.Executes c s.db x s'.db := by
        rcases h with hanswers | ⟨hfails, -⟩
        · exact .inl hanswers.files
        · exact .inr hfails
      exact hexec.constrained hdb

/-- **Step lemma.** Every call keeps the keys. -/
theorem KeysInv.step (h : KeysInv s.db) (hexec : Executes bucket c s x s') : KeysInv s'.db := by
  obtain ⟨⟨hunique, hids⟩, hmessage, hconstrained⟩ := h
  have hconstrained' := hexec.constrained hconstrained
  cases hexec.rowStep with
  | uploaded new row hentry hrow hrefusal hfiles hmessages hattachments =>
      obtain ⟨hid, hempty, hfree⟩ := Files.FilesDb.of_refusal hrefusal
      refine ⟨⟨?_, ?_⟩, hmessages ▸ hmessage, hconstrained'⟩
      · rw [hfiles, hrow]
        exact hunique.concat hfree
      · rw [hfiles, hrow]
        exact List.forall_mem_append.mpr ⟨hids, List.forall_mem_singleton.mpr ⟨hid, hempty⟩⟩
  | sent new m hentry hrow hfresh hfiles hmessages hattachments =>
      refine ⟨⟨hfiles ▸ hunique, hfiles ▸ hids⟩, ?_, hconstrained'⟩
      rw [hmessages]
      exact hmessage.concat hfresh
  | attached rows hentry hrefusal hfiles hmessages hattachments =>
      exact ⟨⟨hfiles ▸ hunique, hfiles ▸ hids⟩, hmessages ▸ hmessage, hconstrained'⟩
  | deleted id hcall hfiles hmessages hattachments =>
      refine ⟨⟨?_, ?_⟩, hmessages ▸ hmessage, hconstrained'⟩
      · rw [hfiles]
        exact hunique.sublist (List.filter_sublist.map _)
      · rw [hfiles]
        exact fun f hf => hids f (List.mem_of_mem_filter hf)
  | other hsends hfiles hmessages hattachments =>
      exact ⟨⟨hfiles ▸ hunique, hfiles ▸ hids⟩, hmessages ▸ hmessage, hconstrained'⟩

end Rows

/-! ## The files of a message -/

section Attachments

variable {req : ChatRequest} {history : ChatHistory}

/-- A request attaches files once at most. -/
theorem attached_once (h : Lawful (Orderly req) history) {rows rows' : List Attachment}
    {x : (ChatCall.files (.insertAttachments rows)).reply}
    {x' : (ChatCall.files (.insertAttachments rows')).reply}
    (hrows : ⟨.files (.insertAttachments rows), x⟩ ∈ history)
    (hrows' : ⟨.files (.insertAttachments rows'), x'⟩ ∈ history) : rows = rows' := by
  have hsame := h.once (fun c => ∃ rows, c = .files (.insertAttachments rows)) ?_ hrows hrows'
    ⟨rows, rfl⟩ ⟨rows', rfl⟩
  · cases hsame
    rfl
  · rintro c history ⟨rows, rfl⟩ hrule ⟨c', x⟩ he ⟨rows', rfl⟩
    exact hrule.2.2 rows' x he

/-- Files are attached to the message that their request has inserted. -/
theorem attached_own (h : Lawful (Orderly req) history) {rows : List Attachment}
    {x : (ChatCall.files (.insertAttachments rows)).reply}
    (hrows : ⟨.files (.insertAttachments rows), x⟩ ∈ history) :
    ∃ new m, Inserted history new m ∧ ∀ r ∈ rows, r.messageId = m.id := by
  obtain ⟨before, hsuffix, -, ⟨new, m, hinserted, hattaches⟩, -⟩ := h.of_mem hrows
  refine ⟨new, m, hsuffix.subset (List.mem_cons_of_mem _ hinserted), fun r hr => ?_⟩
  exact (hattaches r hr).1

/-- The files that are attached to a message are those of its ids. -/
theorem attachedTo_perm {db : FilesDb} (h : KeysInv db) {messageId : String} (ids : List String)
    {files : List StoredFile}
    (hrows : ∀ a, (a ∈ db.attachments ∧ a.messageId = messageId) ↔ a ∈ attachmentRows messageId ids)
    (hunique : Table.Unique StoredFile.id files)
    (hfiles : ∀ f, f ∈ files ↔ f ∈ db.files ∧ f.id ∈ ids) : (attachedTo db messageId).Perm files := by
  have hnodup : (attachedTo db messageId).Nodup := by
    rw [attachedTo, List.nodup_flatMap]
    constructor
    · intro a _
      exact (h.files.unique.of_map _).filter _
    · -- two attachments of one message are of two files
      refine (h.constrained.keyed.filter _).pairwise_of_forall_ne fun a ha a' ha' hne => ?_
      intro f hf hf'
      have hid : f.id = a.fileId := by simpa using (List.mem_filter.mp hf).2
      have hid' : f.id = a'.fileId := by simpa using (List.mem_filter.mp hf').2
      have hmessage : a.messageId = messageId := by simpa using (List.mem_filter.mp ha).2
      have hmessage' : a'.messageId = messageId := by simpa using (List.mem_filter.mp ha').2
      apply hne
      cases a
      cases a'
      simp only [Attachment.mk.injEq]
      exact ⟨hmessage.trans hmessage'.symm, hid.symm.trans hid'⟩
  apply (List.perm_ext_iff_of_nodup hnodup (hunique.of_map _)).mpr
  intro f
  rw [hfiles, attachedTo, List.mem_flatMap]
  constructor
  · rintro ⟨a, ha, hf⟩
    obtain ⟨hf, hid⟩ := List.mem_filter.mp hf
    obtain ⟨ha, hmessage⟩ := List.mem_filter.mp ha
    obtain ⟨id, hmem, heq⟩ := List.mem_map.mp ((hrows a).mp ⟨ha, of_decide_eq_true hmessage⟩)
    rw [← heq] at hid
    exact ⟨hf, of_decide_eq_true hid ▸ hmem⟩
  · rintro ⟨hf, hid⟩
    obtain ⟨ha, hmessage⟩ := (hrows ⟨messageId, f.id⟩).mpr (List.mem_map_of_mem hid)
    exact ⟨_, List.mem_filter.mpr ⟨ha, by simp⟩, List.mem_filter.mpr ⟨hf, by simp⟩⟩

end Attachments

/-! ## Every run -/

/-- What every run keeps: keys, what was said of the rows, where attachments come from, and that no two
requests have inserted one message. -/
structure SentInv (c : ChatConfig) : Prop where
  ruled : Ruled Orderly Ended c
  recalling : Recalling (fun _ => Remains) c
  keys : KeysInv c.shared.db
  origin : ∀ a ∈ c.shared.db.attachments, ∃ t k rows, c.threads t = some k ∧
    ⟨.files (.insertAttachments rows), .ok ()⟩ ∈ historyOf k.rest ∧ a ∈ rows
  apart : ∀ t t' k k' new new' m m', t ≠ t' → c.threads t = some k → c.threads t' = some k' →
    Inserted (historyOf k.rest) new m → Inserted (historyOf k'.rest) new' m' → m.id ≠ m'.id

section Runs

variable {F : FloatArithmetic} {c c' : ChatConfig} {l : ChatLabel} {t : ℕ} {req : ChatRequest}
  {call : ChatCall × ChatHistory}
  {cont : call.1.reply → Calls (HttpException × ChatHistory) (ChatCall × ChatHistory)
    (fun c => c.1.reply) (ChatAnswer × ChatHistory)}
  {bucket : Bucket} {x : call.1.reply} {s : ChatStore}

/-- A message that was inserted just now has an id that no other request was told. -/
theorem inserted_fresh (h : SentInv c) (hexec : Executes bucket call.1 c.shared x s)
    {new new' : NewMessage} {m m' : AgreementMessage} {t' : ℕ} {k' : ChatTask}
    (hentry : (⟨call.1, x⟩ : Entry) = ⟨.files (.insertMessage new), .ok m⟩)
    (hk' : c.threads t' = some k') (hm' : Inserted (historyOf k'.rest) new' m') : m.id ≠ m'.id := by
  have hthere : m' ∈ c.shared.db.messages := ((h.recalling.held t' k' hk') _ hm').1
  cases hexec.rowStep with
  | sent new₁ m₁ hentry' hrow hfresh hfiles hmessages hattachments =>
      cases hentry.symm.trans hentry'
      exact Ne.symm (hfresh m' hthere)
  | uploaded new₁ row hentry' hrow hrefusal hfiles hmessages hattachments =>
      cases hentry.symm.trans hentry'
  | attached rows hentry' hrefusal hfiles hmessages hattachments => cases hentry.symm.trans hentry'
  | deleted id hcall hfiles hmessages hattachments =>
      rw [hentry] at hcall
      cases hcall
  | other hsends hfiles hmessages hattachments =>
      rw [hentry] at hsends
      cases hsends

/-- What a request has been told after its call. -/
theorem mem_history_after (h : SentInv c) (hk : c.threads t = some ⟨req, .call call cont⟩) {e : Entry} :
    e ∈ historyOf (cont x) ↔ e = ⟨call.1, x⟩ ∨ e ∈ call.2 := by
  rw [h.ruled.historyOf_cont hk, List.mem_cons]

/-- **Step lemma.** New attachments come from the request that inserts them. -/
theorem origin_after (h : SentInv c) (hk : c.threads t = some ⟨req, .call call cont⟩)
    (hexec : Executes bucket call.1 c.shared x s) : ∀ a ∈ s.db.attachments, ∃ t' k rows,
      (Calls.after c t req (cont x) s).threads t' = some k ∧
        ⟨.files (.insertAttachments rows), .ok ()⟩ ∈ historyOf k.rest ∧ a ∈ rows := by
  have hold : ∀ a ∈ c.shared.db.attachments, ∃ t' k rows,
      (Calls.after c t req (cont x) s).threads t' = some k ∧
        ⟨.files (.insertAttachments rows), .ok ()⟩ ∈ historyOf k.rest ∧ a ∈ rows := by
    intro a ha
    obtain ⟨t', k, rows, hk', hrows, hmem⟩ := h.origin a ha
    -- who wrote the older attachments is still there
    by_cases ht : t' = t
    · subst ht
      obtain rfl := Option.some.inj (hk'.symm.trans hk)
      exact ⟨t', ⟨req, cont x⟩, rows, by simp, (mem_history_after h hk).mpr (.inr hrows), hmem⟩
    · exact ⟨t', k, rows, by simpa [ht] using hk', hrows, hmem⟩
  intro a ha
  cases hexec.rowStep with
  | attached rows hentry hrefusal hfiles hmessages hattachments =>
      rw [hattachments] at ha
      rcases List.mem_append.mp ha with ha | hnew
      · exact hold a ha
      · exact ⟨t, ⟨req, cont x⟩, rows, by simp, (mem_history_after h hk).mpr (.inl hentry.symm), hnew⟩
  | deleted id hcall hfiles hmessages hattachments =>
      rw [hattachments] at ha
      exact hold a (List.mem_of_mem_filter ha)
  | uploaded new row hentry hrow hrefusal hfiles hmessages hattachments =>
      exact hold a (hattachments ▸ ha)
  | sent new m hentry hrow hfresh hfiles hmessages hattachments => exact hold a (hattachments ▸ ha)
  | other hsends hfiles hmessages hattachments => exact hold a (hattachments ▸ ha)

/-- **Step lemma.** No two requests have inserted one message. -/
theorem apart_after (h : SentInv c) (hk : c.threads t = some ⟨req, .call call cont⟩)
    (hexec : Executes bucket call.1 c.shared x s) {t₁ t₂ : ℕ} {k₁ k₂ : ChatTask}
    {new₁ new₂ : NewMessage} {m₁ m₂ : AgreementMessage} (hne : t₁ ≠ t₂)
    (hk₁ : (Calls.after c t req (cont x) s).threads t₁ = some k₁)
    (hk₂ : (Calls.after c t req (cont x) s).threads t₂ = some k₂)
    (hm₁ : Inserted (historyOf k₁.rest) new₁ m₁) (hm₂ : Inserted (historyOf k₂.rest) new₂ m₂) :
    m₁.id ≠ m₂.id := by
  rcases Threads.update_eq_some hk₁ with ⟨rfl, hself⟩ | ⟨hne₁, hother₁⟩
  · cases hself
    rcases Threads.update_eq_some hk₂ with ⟨rfl, -⟩ | ⟨hne₂, hother₂⟩
    · exact absurd rfl hne
    · rcases (mem_history_after h hk).mp hm₁ with hentry | hbefore
      · exact inserted_fresh h hexec hentry.symm hother₂ hm₂
      · exact h.apart t₁ t₂ _ k₂ new₁ new₂ m₁ m₂ hne hk hother₂ hbefore hm₂
  · rcases Threads.update_eq_some hk₂ with ⟨rfl, hself⟩ | ⟨hne₂, hother₂⟩
    · cases hself
      rcases (mem_history_after h hk).mp hm₂ with hentry | hbefore
      · exact Ne.symm (inserted_fresh h hexec hentry.symm hother₁ hm₁)
      · exact h.apart t₁ t₂ k₁ _ new₁ new₂ m₁ m₂ hne hother₁ hk hm₁ hbefore
    · exact h.apart t₁ t₂ k₁ k₂ new₁ new₂ m₁ m₂ hne hother₁ hother₂ hm₁ hm₂

/-- **Step lemma.** -/
theorem SentInv.step (h : SentInv c) (hstep : ((chatSystem F).restrict KeepsFiles).step c l c') :
    SentInv c' := by
  obtain ⟨hguard, hstep⟩ := hstep
  have hruled : Ruled Orderly Ended c' :=
    h.ruled.step (fun req => ⟨_, rfl, program_orderly F req⟩) hstep
  have hgrows : Grows c.shared.db c'.shared.db := by
    cases Calls.step_cases hstep with
    | start t req hfree => exact ⟨fun _ h => h, fun _ h => h, fun _ h => h⟩
    | act t bucket req call cont x s hk hexec =>
        obtain ⟨query, history⟩ := call
        -- no agreement with files is deleted, so no file goes, and no attachment
        refine hexec.rowStep.grows h.keys fun id hcall f hf => ?_
        obtain rfl : query = _ := hcall
        exact hguard req id history cont hk f hf
    | env wallet s hb =>
        obtain rfl : s = _ := hb
        exact ⟨fun _ h => h, fun _ h => h, fun _ h => h⟩
  have hrecalling : Recalling (fun _ => Remains) c' := by
    refine h.recalling.step (S := chatServing F) (fun req => ⟨_, rfl⟩) ?_ ?_ hstep
    · intro bucket req call x s hexec
      exact hexec.remains h.keys
    · intro t k hk hheld e he
      exact (hheld e he).grow hgrows
  cases Calls.step_cases hstep with
  | start t req hfree =>
      refine ⟨hruled, hrecalling, h.keys, fun a ha => ?_, ?_⟩
      · obtain ⟨t', k, rows, hk, hrows, hmem⟩ := h.origin a ha
        have hne : t' ≠ t := by
          rintro rfl
          rw [hfree] at hk
          cases hk
        exact ⟨t', k, rows, by simpa [hne] using hk, hrows, hmem⟩
      · intro t₁ t₂ k₁ k₂ new₁ new₂ m₁ m₂ hne hk₁ hk₂ hm₁ hm₂
        -- a request that begins has inserted nothing
        have hnone : ∀ new m, ¬ Inserted (historyOf ((chatServing F).program req)) new m := by
          intro new m hm
          rw [chatServing, Calls.historyOf_traced] at hm
          cases hm
        rcases Threads.update_eq_some hk₁ with ⟨-, hself⟩ | ⟨-, hother₁⟩
        · cases hself
          exact absurd hm₁ (hnone _ _)
        · rcases Threads.update_eq_some hk₂ with ⟨-, hself⟩ | ⟨-, hother₂⟩
          · cases hself
            exact absurd hm₂ (hnone _ _)
          · exact h.apart t₁ t₂ k₁ k₂ new₁ new₂ m₁ m₂ hne hother₁ hother₂ hm₁ hm₂
  | act t bucket req call cont x s hk hexec =>
      refine ⟨hruled, hrecalling, h.keys.step hexec, origin_after h hk hexec, ?_⟩
      intro t₁ t₂ k₁ k₂ new₁ new₂ m₁ m₂ hne hk₁ hk₂ hm₁ hm₂
      exact apart_after h hk hexec hne hk₁ hk₂ hm₁ hm₂
  | env wallet s hb =>
      obtain rfl : s = _ := hb
      refine ⟨hruled, hrecalling, ?_, h.origin, h.apart⟩
      obtain ⟨hkeyed, hmessages, hthere⟩ := h.keys.constrained
      exact ⟨⟨h.keys.files.unique, h.keys.files.ids⟩, h.keys.messages, ⟨hkeyed, hmessages, hthere⟩⟩

/-- **Run lemma.** -/
theorem sentInv_of_reachable (h : ((chatSystem F).restrict KeepsFiles).Reachable c) : SentInv c := by
  refine StepSystem.invariant_of_steps (M := (chatSystem F).restrict KeepsFiles) (I := SentInv) ?_ ?_ h
  · rintro c ⟨⟨hfiles, hmessages, hattachments, -⟩, hnone⟩
    refine ⟨Calls.ruled_of_none hnone, Calls.recalling_of_none hnone, ⟨⟨?_, ?_⟩, ?_, ⟨?_, ?_, ?_⟩⟩, ?_, ?_⟩
    · simp [hfiles, Table.Unique]
    · simp [hfiles]
    · simp [hmessages, Table.Unique]
    · simp [hattachments]
    · simp [hattachments]
    · simp [hattachments]
    · simp [hattachments]
    · intro t t' k k' new new' m m' _ hk
      rw [hnone t] at hk
      cases hk
  · intro c l c' _ hI hstep
    exact hI.step hstep

/-- The files of a message that was answered are those it was answered with. -/
theorem sent_attached (h : SentInv c) {userId : String} {dto : SendMessageDto} {sent : SentMessage}
    {history : ChatHistory} (hk : c.threads t =
      some ⟨.files (.sendMessage userId dto), .done (.files (.sent sent), history)⟩) :
    ((attachedTo c.shared.db sent.message.id).map toPublicFile).Perm sent.attachments := by
  obtain ⟨-, hsent⟩ := h.ruled.ended hk
  have hlawful : Lawful (Orderly _) history := h.ruled.lawful hk
  have hheld : Calls.Held Remains history c.shared := h.recalling.held t _ hk
  obtain ⟨files, hgiven, hattachments⟩ := hsent.given
  rw [hattachments]
  refine (attachedTo_perm h.keys dto.attachmentIds ?_ ?_ ?_).map _
  · intro a
    constructor
    · rintro ⟨ha, hmessage⟩
      -- whoever attached it had inserted the message
      obtain ⟨t', k, rows, hk', hrows, hmem⟩ := h.origin a ha
      obtain ⟨new, m, hinserted, hown⟩ := attached_own (h.ruled.lawful hk') hrows
      have hsame : t' = t := by
        by_contra hne
        exact h.apart t' t k _ new _ m sent.message hne hk' hk hinserted hsent.inserted
          ((hown a hmem).symm.trans hmessage)
      subst hsame
      obtain rfl := Option.some.inj (hk'.symm.trans hk)
      rcases hsent.attached with ⟨-, hnone⟩ | hattached
      · exact absurd hrows (hnone rows _)
      · rw [← attached_once hlawful hrows hattached]
        exact hmem
    · intro ha
      rcases hsent.attached with ⟨hnone, -⟩ | hattached
      · rw [hnone] at ha
        cases ha
      · refine ⟨hheld _ hattached a ha, ?_⟩
        obtain ⟨id, -, rfl⟩ := List.mem_map.mp ha
        rfl
  · rcases hgiven.found with rfl | ⟨unique, -, hfound⟩
    · simp [Table.Unique]
    · exact (hheld _ hfound).1
  · have hthere : ∀ f ∈ files, f ∈ c.shared.db.files ∧ f.id ∈ dto.attachmentIds := by
      intro f hf
      rcases hgiven.found with rfl | ⟨unique, hids, hfound⟩
      · cases hf
      · obtain ⟨hmem, hid⟩ := (hheld _ hfound).2 f hf
        exact ⟨hmem, hids _ hid⟩
    intro f
    refine ⟨hthere f, ?_⟩
    rintro ⟨hf, hid⟩
    obtain ⟨g, hg, heq⟩ := hgiven.all f.id hid (h.keys.files.ids f hf).1
    rw [← h.keys.files.unique.eq (hthere g hg).1 hf heq]
    exact hg

/-- **What was sent is read.** However requests interleave and whatever fails, as long as no agreement with
files is deleted: once a message was answered, whoever may access the agreement reads it, once, as it was
sent and with the files that it was answered with. -/
theorem sent_is_read (h : ((chatSystem F).restrict KeepsFiles).Reachable c) {userId : String}
    {dto : SendMessageDto} {sent : SentMessage} {history : ChatHistory} (hk : c.threads t =
      some ⟨.files (.sendMessage userId dto), .done (.files (.sent sent), history)⟩) {reader : String}
    (hreader : mayAccess c.shared.db.agreement reader (uuidOf dto.agreementId) = true) :
    Ensures (Answers bucket) (getMessages reader dto.agreementId) c.shared fun out _ =>
      ∃ messages, out = .ok messages ∧ (messages.map fun m => m.message.id).Nodup ∧
        ∃ read ∈ messages, read.message = sent.message ∧ read.attachments.Perm sent.attachments ∧
          read.message = (newMessage userId dto).row sent.message.id sent.message.createdAt := by
  have hinv := sentInv_of_reachable h
  obtain ⟨-, hsent⟩ := hinv.ruled.ended hk
  have hheld : Calls.Held Remains history c.shared := hinv.recalling.held t _ hk
  -- the message was inserted, and it is there still
  obtain ⟨hmessage, hrow⟩ := hheld _ hsent.inserted
  refine getMessages_answered.mono ?_
  rintro out s' ⟨-, haccess, hconversation⟩
  obtain ⟨messages, rfl⟩ := haccess.mpr hreader
  obtain ⟨hall, -, hattached⟩ := hconversation messages rfl
  refine ⟨messages, rfl, ?_, ?_⟩
  · -- the answer has the messages of the table, in some order, so each of them once
    have hids : (messages.map fun m => m.message.id) =
        (messages.map SentMessage.message).map AgreementMessage.id := by
      rw [List.map_map]
      rfl
    rw [hids]
    exact (hall.map _).nodup_iff.mpr (hinv.keys.messages.sublist (List.filter_sublist.map _))
  · have hof : sent.message ∈ messagesOf c.shared.db dto.agreementId := by
      refine List.mem_filter.mpr ⟨hmessage, decide_eq_true ?_⟩
      rw [hrow]
      rfl
    obtain ⟨read, hread, heq⟩ := List.mem_map.mp (hall.mem_iff.mpr hof)
    refine ⟨read, hread, heq, ?_, heq.trans hrow⟩
    -- what is attached now is what the request had attached
    have hfiles := hattached read hread
    rw [heq] at hfiles
    exact hfiles.trans (sent_attached hinv hk)

end Runs

/-! ## A message with a file -/

section Example

open Agreements (exactArithmetic)

/-- A message of `payer` that was answered. -/
def sentBy (k : ChatTask) : Option (SentMessage × ChatHistory) :=
  match k.request, k.rest with
  | .files (.sendMessage userId dto), .done (.files (.sent sent), history) =>
      if userId = "payer" ∧ dto = sendFile then some (sent, history) else none
  | _, _ => none

theorem eq_of_sentBy {k : ChatTask} {sent : SentMessage} {history : ChatHistory}
    (h : sentBy k = some (sent, history)) : k =
      ⟨.files (.sendMessage "payer" sendFile), .done (.files (.sent sent), history)⟩ := by
  obtain ⟨request, rest⟩ := k
  unfold sentBy at h
  split at h
  · rename_i userId dto sent' history' hrequest hrest
    split at h
    · rename_i hpayer
      obtain ⟨rfl, rfl⟩ := hpayer
      cases h
      exact congrArg₂ Calls.Task.mk hrequest hrest
    · cases h
  · cases h

theorem sent_is_read_receipt : ∃ (c : ChatConfig) (sent : SentMessage),
    ((chatSystem exactArithmetic).restrict KeepsFiles).Reachable c ∧
      sent.attachments.map PublicFile.id = ["f"] ∧
      Ensures (Answers .reliable) (getMessages "payee" "i") c.shared fun out _ =>
        ∃ messages, out = .ok messages ∧ (messages.map fun m => m.message.id).Nodup ∧
          ∃ read ∈ messages, read.message = sent.message ∧ read.attachments.Perm sent.attachments ∧
            read.message =
              (newMessage "payer" sendFile).row sent.message.id sent.message.createdAt := by
  have hrun : ((playChat deletesNone sendMoves).any fun state =>
      mayAccess state.1.db.agreement "payee" (uuidOf "i") = true ∧ ((state.2[2]?.bind sentBy).any fun answer =>
        answer.1.attachments.map PublicFile.id = ["f"]) = true) = true := by decide +kernel
  obtain ⟨state, hstate, hend⟩ := (Option.any_eq_true _ _).mp hrun
  obtain ⟨haccess, hanswer⟩ := of_decide_eq_true hend
  obtain ⟨⟨sent, history⟩, hsent, hfiles⟩ := (Option.any_eq_true _ _).mp hanswer
  obtain ⟨k, hk, hsent⟩ := Option.bind_eq_some_iff.mp hsent
  obtain rfl := eq_of_sentBy hsent
  have hreach := reachable_playChat (fun _ _ _ => keepsFiles_of_deletesNone) hstate
  exact ⟨_, sent, hreach, of_decide_eq_true hfiles, sent_is_read hreach hk haccess⟩

end Example

end ThalosBackend.AgreementChat
