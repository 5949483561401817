import ThalosBackend.Profiles.ProfilesService

/-!
# Business verifications

The rows of `kyb_verifications` with the constraints of migrations 002 and 014, what the service of
`src/kyb` asks of the database, of the identity provider and of the event emitter, and what is done
with that. An organization has one row, which is never deleted and never changes its requester.

The provider is behind an interface. It may answer with any session, or fail with any error.
-/

set_option autoImplicit false

namespace ThalosBackend.Kyb

open Js (Timestamp)
open Profiles (Directory ProfileCall ProfileDb)
open Wallets (DbError Reply maybeSingle noRows duplicateKey)

/-! ## Rows -/

inductive KybEntityType where
  | company
  | startup
  | organization
  | legalEntity
  deriving DecidableEq

inductive KybStatus where
  | pending
  | inReview
  | verified
  | rejected
  deriving DecidableEq

def KybStatus.text : KybStatus → String
  | .pending => "pending"
  | .inReview => "in_review"
  | .verified => "verified"
  | .rejected => "rejected"

/-- `FINALIZED_STATUSES`. -/
def finalizedStatuses : List KybStatus := [.verified, .rejected]

/-- A row of `kyb_verifications`. -/
structure KybVerification where
  id : String
  organizationId : String
  requestedBy : String
  entityType : KybEntityType
  businessName : String
  registrationNumber : String
  country : String
  status : KybStatus
  provider : String
  providerSessionId : String
  rejectionReason : Option String
  verifiedAt : Option Timestamp
  createdAt : Timestamp
  updatedAt : Timestamp
  deriving DecidableEq

/-- A row of `kyb_verifications` as `createSession` inserts it. -/
structure NewVerification where
  organizationId : String
  requestedBy : String
  entityType : KybEntityType
  businessName : String
  registrationNumber : String
  country : String
  status : KybStatus
  provider : String
  providerSessionId : String
  verifiedAt : Option Timestamp
  deriving DecidableEq

/-- The inserted row, under the id and the time the database gives it. -/
def NewVerification.row (new : NewVerification) (id : String) (created : Timestamp) :
    KybVerification where
  id
  organizationId := new.organizationId
  requestedBy := new.requestedBy
  entityType := new.entityType
  businessName := new.businessName
  registrationNumber := new.registrationNumber
  country := new.country
  status := new.status
  provider := new.provider
  providerSessionId := new.providerSessionId
  rejectionReason := none
  verifiedAt := new.verifiedAt
  createdAt := created
  updatedAt := created

/-- What an update sets. A field that is left alone is `none`, and `null` is `some none`. -/
structure VerificationUpdates where
  entityType : Option KybEntityType := none
  businessName : Option String := none
  registrationNumber : Option String := none
  country : Option String := none
  status : KybStatus
  provider : Option String := none
  providerSessionId : Option String := none
  rejectionReason : Option (Option String)
  verifiedAt : Option Timestamp
  updatedAt : Timestamp
  deriving DecidableEq

/-- The row after an update. -/
def KybVerification.apply (updates : VerificationUpdates) (v : KybVerification) : KybVerification :=
  { v with
    entityType := updates.entityType.getD v.entityType
    businessName := updates.businessName.getD v.businessName
    registrationNumber := updates.registrationNumber.getD v.registrationNumber
    country := updates.country.getD v.country
    status := updates.status
    provider := updates.provider.getD v.provider
    providerSessionId := updates.providerSessionId.getD v.providerSessionId
    rejectionReason := updates.rejectionReason.getD v.rejectionReason
    verifiedAt := updates.verifiedAt
    updatedAt := updates.updatedAt }

@[simp] theorem KybVerification.apply_organizationId (updates : VerificationUpdates)
    (v : KybVerification) : (v.apply updates).organizationId = v.organizationId := rfl

@[simp] theorem KybVerification.apply_requestedBy (updates : VerificationUpdates)
    (v : KybVerification) : (v.apply updates).requestedBy = v.requestedBy := rfl

@[simp] theorem KybVerification.apply_status (updates : VerificationUpdates)
    (v : KybVerification) : (v.apply updates).status = updates.status := rfl

/-! ## Sessions and events -/

/-- `CreateVerificationSessionInput`. -/
structure CreateVerificationSessionInput where
  organizationId : String
  businessName : String
  registrationNumber : String
  country : String
  entityType : KybEntityType
  deriving DecidableEq

/-- `VerificationSessionResult`. -/
structure VerificationSessionResult where
  providerSessionId : String
  redirectUrl : Option String
  initialStatus : KybStatus
  deriving DecidableEq

/-- The events `KYB_VERIFIED` and `KYB_REJECTED` with what they carry. -/
inductive KybEvent where
  | verified (organizationId businessName : String) (verifiedAt : Option Timestamp)
  | rejected (organizationId businessName : String) (rejectionReason : Option String)
  deriving DecidableEq

def KybEvent.organizationId : KybEvent → String
  | .verified organizationId _ _ => organizationId
  | .rejected organizationId _ _ => organizationId

/-- The event that tells of a row. -/
def KybVerification.event (v : KybVerification) : Option KybEvent :=
  if v.status = .verified then some (.verified v.organizationId v.businessName v.verifiedAt)
  else if v.status = .rejected then
    some (.rejected v.organizationId v.businessName v.rejectionReason)
  else none

/-! ## Calls -/

/-- What the service asks for. -/
inductive KybCall where
  /-- A query of users and profiles. -/
  | profile (c : ProfileCall)
  | findByOrganization (organizationId : String)
  | createVerificationSession (input : CreateVerificationSessionInput)
  | insertVerification (new : NewVerification)
  | updateVerification (organizationId : String) (updates : VerificationUpdates)
  | emit (event : KybEvent)
  deriving DecidableEq

/-- What a call is answered with. -/
abbrev KybCall.reply : KybCall → Type
  | .profile c => c.reply
  | .findByOrganization _ => Reply (Option KybVerification)
  | .createVerificationSession _ => Except HttpException VerificationSessionResult
  | .insertVerification _ | .updateVerification _ _ => Reply KybVerification
  | .emit _ => Unit

/-- The database, and the events emitted so far. -/
structure KybDb where
  profile : ProfileDb
  verifications : List KybVerification
  events : List KybEvent

namespace KybDb

/-- The rows of an organization. -/
def ofOrganization (db : KybDb) (organizationId : String) : List KybVerification :=
  db.verifications.filter fun v => v.organizationId = organizationId

/-- Rewrite the rows of an organization. -/
def update (db : KybDb) (organizationId : String) (updates : VerificationUpdates) : KybDb :=
  { db with
    verifications := Table.updateWhere (fun v => v.organizationId = organizationId)
      (KybVerification.apply updates) db.verifications }

/-- Why a row cannot be inserted: its organization has one, or its requester is no user. -/
def refusal (db : KybDb) (new : NewVerification) : Option DbError :=
  if ∃ v ∈ db.verifications, v.organizationId = new.organizationId then some duplicateKey
  else if (db.profile.wallet.authUsers new.requestedBy).isNone then
    some ⟨"23503", "insert or update on table \"kyb_verifications\" violates foreign key constraint"⟩
  else none

end KybDb

/-- What is done with a call that does not fail. The id and the creation time of a new row are open,
and so is the provider's answer. -/
def Answers (directory : Directory) : (c : KybCall) → KybDb → c.reply → KybDb → Prop
  | .profile c, db, x, db' =>
      ∃ profile, Profiles.Answers directory c db.profile x profile ∧ db' = { db with profile := profile }
  | .findByOrganization organizationId, db, x, db' =>
      x = maybeSingle (db.ofOrganization organizationId) ∧ db' = db
  | .createVerificationSession _, db, _, db' => db' = db
  | .insertVerification new, db, x, db' =>
      match db.refusal new with
      | some e => x = .error e ∧ db' = db
      | none => ∃ id created, (∀ v ∈ db.verifications, v.id ≠ id) ∧ x = .ok (new.row id created) ∧
          db' = { db with verifications := db.verifications ++ [new.row id created] }
  | .updateVerification organizationId updates, db, x, db' =>
      match db.ofOrganization organizationId with
      | [v] => x = .ok (v.apply updates) ∧ db' = db.update organizationId updates
      -- a single row was asked for: the update is rolled back
      | _ => x = .error noRows ∧ db' = db
  | .emit event, db, _, db' => db' = { db with events := db.events ++ [event] }

/-- A query that fails reports an error and changes nothing. That a key is there already is an answer
of the database, not a failure. -/
def Fails : (c : KybCall) → KybDb → c.reply → KybDb → Prop
  | .profile _, db, x, db' => (∃ e, x = .error e) ∧ db' = db
  | .findByOrganization _, db, x, db' => (∃ e, x = .error e) ∧ db' = db
  | .insertVerification _, db, x, db' => (∃ e, e.code ≠ duplicateKey.code ∧ x = .error e) ∧ db' = db
  | .updateVerification _ _, db, x, db' => (∃ e, x = .error e) ∧ db' = db
  | .createVerificationSession _, _, _, _ => False
  | .emit _, _, _, _ => False

/-- A call is answered, or fails. -/
inductive CallAct where
  | answer
  | fail
  deriving DecidableEq

def CallAct.exec (directory : Directory) (act : CallAct) (c : KybCall) (db : KybDb) (x : c.reply)
    (db' : KybDb) : Prop :=
  match act with
  | .answer => Answers directory c db x db'
  | .fail => Fails c db x db'

/-! ## What a call does to the rows -/

/-- The rows after a call: as they were, with a new one, or with those of an organization updated. -/
inductive RowsChange (db : KybDb) (c : KybCall) : List KybVerification → Prop where
  | same : RowsChange db c db.verifications
  | inserted (new : NewVerification) (id : String) (created : Timestamp) :
      c = .insertVerification new →
      (∀ v ∈ db.verifications, v.organizationId ≠ new.organizationId) →
      RowsChange db c (db.verifications ++ [new.row id created])
  | updated (organizationId : String) (updates : VerificationUpdates) :
      c = .updateVerification organizationId updates →
      RowsChange db c (db.update organizationId updates).verifications

section Rows

variable {directory : Directory} {act : CallAct} {c : KybCall} {db db' : KybDb} {x : c.reply}

theorem KybDb.refusal_eq_none {new : NewVerification} (h : db.refusal new = none) :
    ∀ v ∈ db.verifications, v.organizationId ≠ new.organizationId := by
  intro v hv heq
  rw [KybDb.refusal, if_pos ⟨v, hv, heq⟩] at h
  cases h

/-- A key that is there already is the one of the organization. -/
theorem KybDb.refusal_eq_duplicate {new : NewVerification} {e : DbError}
    (h : db.refusal new = some e) (hcode : e.code = duplicateKey.code) :
    ∃ v ∈ db.verifications, v.organizationId = new.organizationId := by
  by_contra hnone
  rw [KybDb.refusal, if_neg hnone] at h
  split at h
  · cases h
    exact absurd hcode (by decide)
  · cases h

/-- An update rewrites the row of the organization, or finds none. -/
theorem updateVerification_cases (directory : Directory) {organizationId : String}
    {updates : VerificationUpdates} {x : Reply KybVerification}
    (h : Answers directory (.updateVerification organizationId updates) db x db') :
    (∃ v, db.ofOrganization organizationId = [v] ∧ x = .ok (v.apply updates) ∧
      db' = db.update organizationId updates) ∨ x = .error noRows ∧ db' = db := by
  simp only [Answers] at h
  rcases hrows : db.ofOrganization organizationId with _ | ⟨v, _ | ⟨w, rest⟩⟩
  · rw [hrows] at h
    exact .inr h
  · rw [hrows] at h
    exact .inl ⟨v, rfl, h⟩
  · rw [hrows] at h
    exact .inr h

theorem CallAct.exec.rows (h : act.exec directory c db x db') : RowsChange db c db'.verifications := by
  cases act with
  | answer =>
      cases c with
      | profile c =>
          obtain ⟨profile, -, rfl⟩ := h
          exact .same
      | findByOrganization organizationId =>
          obtain ⟨-, rfl⟩ := h
          exact .same
      | createVerificationSession input =>
          obtain rfl := h
          exact .same
      | insertVerification new =>
          simp only [CallAct.exec, Answers] at h
          cases hrefusal : db.refusal new with
          | some e =>
              rw [hrefusal] at h
              rw [h.2]
              exact .same
          | none =>
              rw [hrefusal] at h
              obtain ⟨id, created, -, -, rfl⟩ := h
              exact .inserted new id created rfl (KybDb.refusal_eq_none hrefusal)
      | updateVerification organizationId updates =>
          rcases updateVerification_cases directory h with ⟨v, -, -, rfl⟩ | ⟨-, rfl⟩
          · exact .updated organizationId updates rfl
          · exact .same
      | emit event =>
          obtain rfl := h
          exact .same
  | fail =>
      cases c with
      | createVerificationSession input => exact h.elim
      | emit event => exact h.elim
      | _ =>
          obtain ⟨-, rfl⟩ := h
          exact .same

/-- The row a query for an organization finds is its only one. -/
theorem KybDb.ofOrganization_eq {organizationId : String} {v : KybVerification}
    (h : maybeSingle (db.ofOrganization organizationId) = .ok (some v)) :
    db.ofOrganization organizationId = [v] := by
  rcases hrows : db.ofOrganization organizationId with _ | ⟨w, _ | ⟨u, rest⟩⟩
  · rw [hrows] at h
    cases h
  · rw [hrows] at h
    cases h
    rfl
  · rw [hrows] at h
    cases h

/-- The call leaves the rows and the events alone. -/
def KybCall.isRead : KybCall → Bool
  | .insertVerification _ | .updateVerification _ _ | .emit _ => false
  | _ => true

theorem CallAct.exec.read (h : act.exec directory c db x db') (hread : c.isRead = true) :
    db'.verifications = db.verifications ∧ db'.events = db.events := by
  cases c with
  | profile c =>
      cases act with
      | answer =>
          obtain ⟨profile, -, rfl⟩ := h
          exact ⟨rfl, rfl⟩
      | fail =>
          obtain ⟨-, rfl⟩ := h
          exact ⟨rfl, rfl⟩
  | findByOrganization organizationId =>
      cases act with
      | answer =>
          obtain ⟨-, rfl⟩ := h
          exact ⟨rfl, rfl⟩
      | fail =>
          obtain ⟨-, rfl⟩ := h
          exact ⟨rfl, rfl⟩
  | createVerificationSession input =>
      cases act with
      | answer =>
          obtain rfl := h
          exact ⟨rfl, rfl⟩
      | fail => exact h.elim
  | _ => cases hread

/-- Every row is still there, under its organization and its requester. -/
theorem RowsChange.continues {rows : List KybVerification} (h : RowsChange db c rows) :
    ∀ v ∈ db.verifications, ∃ w ∈ rows,
      w.organizationId = v.organizationId ∧ w.requestedBy = v.requestedBy := by
  intro v hv
  cases h with
  | same => exact ⟨v, hv, rfl, rfl⟩
  | inserted new id created hc hfresh => exact ⟨v, List.mem_append_left _ hv, rfl, rfl⟩
  | updated organizationId updates hc =>
      refine ⟨_, Table.mem_updateWhere.mpr ⟨v, hv, rfl⟩, ?_⟩
      split
      · exact ⟨rfl, rfl⟩
      · exact ⟨rfl, rfl⟩

end Rows

/-! ## A database that answers -/

/-- The session of `ManualIdentityProvider`, which waits for an admin. -/
def manualSession : VerificationSessionResult := ⟨"manual", none, .pending⟩

/-- The answer to a call. -/
def KybDb.answer (directory : Directory) : (c : KybCall) → KybDb → c.reply × KybDb
  | .profile c, db =>
      ((db.profile.answer directory c).1, { db with profile := (db.profile.answer directory c).2 })
  | .findByOrganization organizationId, db => (maybeSingle (db.ofOrganization organizationId), db)
  | .createVerificationSession _, db => (.ok manualSession, db)
  | .insertVerification new, db =>
      match db.refusal new with
      | some e => (.error e, db)
      | none =>
        let row := new.row (freshText (db.verifications.map KybVerification.id)) 0
        (.ok row, { db with verifications := db.verifications ++ [row] })
  | .updateVerification organizationId updates, db =>
      match db.ofOrganization organizationId with
      | [v] => (.ok (v.apply updates), db.update organizationId updates)
      | _ => (.error noRows, db)
  | .emit event, db => ((), { db with events := db.events ++ [event] })

theorem KybDb.answers_answer (directory : Directory) (c : KybCall) (db : KybDb) :
    Answers directory c db (db.answer directory c).1 (db.answer directory c).2 := by
  cases c with
  | profile c => exact ⟨_, db.profile.answers_answer directory c, rfl⟩
  | insertVerification new =>
      simp only [Answers, KybDb.answer]
      cases db.refusal new with
      | some e => exact ⟨rfl, rfl⟩
      | none => exact ⟨_, _, fun v hv => freshText_ne (List.mem_map_of_mem hv), rfl, rfl⟩
  | updateVerification organizationId updates =>
      simp only [Answers, KybDb.answer]
      rcases db.ofOrganization organizationId with _ | ⟨v, _ | ⟨w, rest⟩⟩
      · exact ⟨rfl, rfl⟩
      · exact ⟨rfl, rfl⟩
      · exact ⟨rfl, rfl⟩
  | findByOrganization organizationId => exact ⟨rfl, rfl⟩
  | createVerificationSession input => rfl
  | emit event => rfl

end ThalosBackend.Kyb
