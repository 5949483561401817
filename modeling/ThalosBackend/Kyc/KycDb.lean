import ThalosBackend.Agreements.AnsweringDb
import ThalosBackend.Kyc.KycProvider
import ThalosBackend.Library.Table
import ThalosBackend.Verification.VerificationTypes

/-!
# KYC records

What the service of `src/kyc` asks of the table `verifications` and of a provider, and what is done with
that. A subject has one row for each provider. The provider reference of a row is no key: an update by
it rewrites every row that has it.

The sessions a provider may answer with are a parameter.
-/

set_option autoImplicit false

namespace ThalosBackend.Kyc

open Js (Timestamp Value)
open Verification (VerificationLevel VerificationRecord VerificationStatus)
open Wallets (DbError Reply maybeSingle noRows duplicateKey)

/-! ## Writes -/

/-- A row as `upsertVerification` inserts it. Its subject is a user. -/
structure NewVerification where
  subjectId : String
  provider : String
  providerReference : String
  status : VerificationStatus
  level : VerificationLevel
  verifiedAt : Option Timestamp
  metadata : Value
  deriving DecidableEq

/-- The inserted row, under the id and the time the database gives it. -/
def NewVerification.row (new : NewVerification) (id : String) (created : Timestamp) :
    VerificationRecord where
  id
  subjectType := .user
  subjectId := new.subjectId
  provider := some new.provider
  providerReference := some new.providerReference
  status := new.status
  level := new.level
  verifiedAt := new.verifiedAt
  expiresAt := none
  metadata := new.metadata
  createdAt := created
  updatedAt := created

/-- What `upsertVerification` sets on a row that is there. -/
structure SessionUpdates where
  providerReference : String
  status : VerificationStatus
  level : VerificationLevel
  verifiedAt : Option Timestamp
  expiresAt : Option Timestamp
  metadata : Value
  updatedAt : Timestamp
  deriving DecidableEq

/-- The row after an update with a new session. -/
def SessionUpdates.apply (updates : SessionUpdates) (v : VerificationRecord) : VerificationRecord :=
  { v with
    providerReference := some updates.providerReference
    status := updates.status
    level := updates.level
    verifiedAt := updates.verifiedAt
    expiresAt := updates.expiresAt
    metadata := updates.metadata
    updatedAt := updates.updatedAt }

/-- What a webhook sets. -/
structure WebhookUpdates where
  status : VerificationStatus
  verifiedAt : Option Timestamp
  updatedAt : Timestamp
  deriving DecidableEq

/-- The row after a webhook. -/
def WebhookUpdates.apply (updates : WebhookUpdates) (v : VerificationRecord) : VerificationRecord :=
  { v with
    status := updates.status
    verifiedAt := updates.verifiedAt
    updatedAt := updates.updatedAt }

@[simp] theorem WebhookUpdates.apply_id (updates : WebhookUpdates) (v : VerificationRecord) :
    (updates.apply v).id = v.id := rfl

@[simp] theorem WebhookUpdates.apply_status (updates : WebhookUpdates) (v : VerificationRecord) :
    (updates.apply v).status = updates.status := rfl

@[simp] theorem WebhookUpdates.apply_providerReference (updates : WebhookUpdates)
    (v : VerificationRecord) : (updates.apply v).providerReference = v.providerReference := rfl

/-! ## Calls -/

/-- What the service asks for. -/
inductive KycCall where
  /-- The row of a user and a provider, by `maybeSingle`. -/
  | findByUser (userId provider : String)
  | createSession (provider : String) (input : CreateSessionInput)
  | insertVerification (new : NewVerification)
  /-- An update of the row with an id, which asks for the row back. -/
  | updateVerification (id : String) (updates : SessionUpdates)
  /-- An update of the rows with a provider reference. -/
  | updateByReference (providerReference : String) (updates : WebhookUpdates)
  deriving DecidableEq

/-- What a call is answered with. -/
abbrev KycCall.reply : KycCall → Type
  | .findByUser _ _ => Reply (Option VerificationRecord)
  | .createSession _ _ => Except HttpException SessionResult
  | .insertVerification _ | .updateVerification _ _ => Reply VerificationRecord
  | .updateByReference _ _ => Reply (List VerificationRecord)

/-- What each provider may answer to a request for a session. -/
abbrev Sessions := String → CreateSessionInput → Except HttpException SessionResult → Prop

/-- The table. -/
structure KycDb where
  verifications : List VerificationRecord

namespace KycDb

/-- The rows of a user and a provider. -/
def ofUser (db : KycDb) (userId provider : String) : List VerificationRecord :=
  db.verifications.filter fun v =>
    v.subjectType = .user ∧ v.subjectId = userId ∧ v.provider = some provider

/-- The rows with an id. -/
def ofId (db : KycDb) (id : String) : List VerificationRecord :=
  db.verifications.filter fun v => v.id = id

/-- The rows with a provider reference. -/
def ofReference (db : KycDb) (providerReference : String) : List VerificationRecord :=
  db.verifications.filter fun v => v.providerReference = some providerReference

/-- Rewrite the row with an id. -/
def update (db : KycDb) (id : String) (updates : SessionUpdates) : KycDb :=
  ⟨Table.updateWhere (fun v => v.id = id) updates.apply db.verifications⟩

/-- Rewrite the rows with a provider reference. -/
def settle (db : KycDb) (providerReference : String) (updates : WebhookUpdates) : KycDb :=
  ⟨Table.updateWhere (fun v => v.providerReference = some providerReference) updates.apply
    db.verifications⟩

end KycDb

/-- What is done with a call that does not fail. The id and the creation time of a new row are open. -/
def Answers (sessions : Sessions) : (c : KycCall) → KycDb → c.reply → KycDb → Prop
  | .findByUser userId provider, db, x, db' => x = maybeSingle (db.ofUser userId provider) ∧ db' = db
  | .createSession provider input, db, x, db' => sessions provider input x ∧ db' = db
  | .insertVerification new, db, x, db' =>
      if db.ofUser new.subjectId new.provider = [] then
        ∃ id created, (∀ v ∈ db.verifications, v.id ≠ id) ∧ x = .ok (new.row id created) ∧
          db' = ⟨db.verifications ++ [new.row id created]⟩
      else x = .error duplicateKey ∧ db' = db
  | .updateVerification id updates, db, x, db' =>
      match db.ofId id with
      | [v] => x = .ok (updates.apply v) ∧ db' = db.update id updates
      -- a single row was asked for: the update is rolled back
      | _ => x = .error noRows ∧ db' = db
  | .updateByReference providerReference updates, db, x, db' =>
      x = .ok ((db.ofReference providerReference).map updates.apply) ∧
        db' = db.settle providerReference updates

/-- A query that fails reports an error and changes nothing. That a key is there already is an answer
of the database, not a failure. -/
def Fails : (c : KycCall) → KycDb → c.reply → KycDb → Prop
  | .findByUser _ _, db, x, db' => (∃ e, x = .error e) ∧ db' = db
  | .insertVerification _, db, x, db' => (∃ e, e.code ≠ duplicateKey.code ∧ x = .error e) ∧ db' = db
  | .updateVerification _ _, db, x, db' => (∃ e, x = .error e) ∧ db' = db
  | .updateByReference _ _, db, x, db' => (∃ e, x = .error e) ∧ db' = db
  | .createSession _ _, _, _, _ => False

/-- A call is answered, or fails. -/
inductive CallAct where
  | answer
  | fail
  deriving DecidableEq

def CallAct.exec (sessions : Sessions) (act : CallAct) (c : KycCall) (db : KycDb) (x : c.reply)
    (db' : KycDb) : Prop :=
  match act with
  | .answer => Answers sessions c db x db'
  | .fail => Fails c db x db'

/-! ## What a call does to the rows -/

/-- The rows after a call: as they were, with a new one, with a new session for one of them, or with a
webhook for some. -/
inductive RowsChange (db : KycDb) (c : KycCall) : CallAct → KycDb → Prop where
  | same (act : CallAct) : RowsChange db c act db
  | inserted (new : NewVerification) (id : String) (created : Timestamp) :
      c = .insertVerification new → db.ofUser new.subjectId new.provider = [] →
      (∀ v ∈ db.verifications, v.id ≠ id) →
      RowsChange db c .answer ⟨db.verifications ++ [new.row id created]⟩
  | restarted (id : String) (updates : SessionUpdates) (v : VerificationRecord) :
      c = .updateVerification id updates → db.ofId id = [v] →
      RowsChange db c .answer (db.update id updates)
  | settled (providerReference : String) (updates : WebhookUpdates) :
      c = .updateByReference providerReference updates →
      RowsChange db c .answer (db.settle providerReference updates)

section Rows

variable {sessions : Sessions} {act : CallAct} {c : KycCall} {db db' : KycDb} {x : c.reply}

/-- An update rewrites the row with the id, or finds none. -/
theorem updateVerification_cases (sessions : Sessions) {id : String} {updates : SessionUpdates}
    {x : Reply VerificationRecord} (h : Answers sessions (.updateVerification id updates) db x db') :
    (∃ v, db.ofId id = [v] ∧ x = .ok (updates.apply v) ∧ db' = db.update id updates) ∨
      x = .error noRows ∧ db' = db := by
  simp only [Answers] at h
  rcases hrows : db.ofId id with _ | ⟨v, _ | ⟨w, rest⟩⟩
  · rw [hrows] at h
    exact .inr h
  · rw [hrows] at h
    exact .inl ⟨v, rfl, h⟩
  · rw [hrows] at h
    exact .inr h

theorem CallAct.exec.rows (h : act.exec sessions c db x db') : RowsChange db c act db' := by
  cases act with
  | answer =>
      cases c with
      | findByUser userId provider =>
          obtain ⟨-, rfl⟩ := h
          exact .same .answer
      | createSession provider input =>
          obtain ⟨-, rfl⟩ := h
          exact .same .answer
      | insertVerification new =>
          simp only [CallAct.exec, Answers] at h
          split at h
          · rename_i hfree
            obtain ⟨id, created, hfresh, -, rfl⟩ := h
            exact .inserted new id created rfl hfree hfresh
          · obtain ⟨-, rfl⟩ := h
            exact .same .answer
      | updateVerification id updates =>
          rcases updateVerification_cases sessions h with ⟨v, hrows, -, rfl⟩ | ⟨-, rfl⟩
          · exact .restarted id updates v rfl hrows
          · exact .same .answer
      | updateByReference providerReference updates =>
          obtain ⟨-, rfl⟩ := h
          exact .settled providerReference updates rfl
  | fail =>
      cases c with
      | createSession provider input => exact h.elim
      | _ =>
          obtain ⟨-, rfl⟩ := h
          exact .same .fail

end Rows

/-! ## A database that answers -/

/-- The answer to a call. -/
def KycDb.answer (session : String → CreateSessionInput → Except HttpException SessionResult) :
    (c : KycCall) → KycDb → c.reply × KycDb
  | .findByUser userId provider, db => (maybeSingle (db.ofUser userId provider), db)
  | .createSession provider input, db => (session provider input, db)
  | .insertVerification new, db =>
      if db.ofUser new.subjectId new.provider = [] then
        let row := new.row (freshText (db.verifications.map VerificationRecord.id)) 0
        (.ok row, ⟨db.verifications ++ [row]⟩)
      else (.error duplicateKey, db)
  | .updateVerification id updates, db =>
      match db.ofId id with
      | [v] => (.ok (updates.apply v), db.update id updates)
      | _ => (.error noRows, db)
  | .updateByReference providerReference updates, db =>
      (.ok ((db.ofReference providerReference).map updates.apply),
        db.settle providerReference updates)

theorem KycDb.answers_answer {sessions : Sessions}
    {session : String → CreateSessionInput → Except HttpException SessionResult}
    (h : ∀ provider input, sessions provider input (session provider input)) (c : KycCall)
    (db : KycDb) : Answers sessions c db (db.answer session c).1 (db.answer session c).2 := by
  cases c with
  | findByUser userId provider => exact ⟨rfl, rfl⟩
  | createSession provider input => exact ⟨h provider input, rfl⟩
  | insertVerification new =>
      simp only [Answers, KycDb.answer]
      split
      · exact ⟨_, _, fun v hv => freshText_ne (List.mem_map_of_mem hv), rfl, rfl⟩
      · exact ⟨rfl, rfl⟩
  | updateVerification id updates =>
      simp only [Answers, KycDb.answer]
      rcases db.ofId id with _ | ⟨v, _ | ⟨w, rest⟩⟩
      · exact ⟨rfl, rfl⟩
      · exact ⟨rfl, rfl⟩
      · exact ⟨rfl, rfl⟩
  | updateByReference providerReference updates => exact ⟨rfl, rfl⟩

end ThalosBackend.Kyc
