import Mathlib.Data.List.Sort
import ThalosBackend.Profiles.ProfilesService
import ThalosBackend.Verification.VerificationTypes

/-!
# The verification service

`verification/verification.service.ts`: the compliance status of a user or a business, aggregated over
the rows of its providers. The rows and the users it reads are in `VerificationDb`.

The database writes timestamps as text, and the service sorts the texts; how they are written, and how
`localeCompare` compares, is a parameter.
-/

set_option autoImplicit false

namespace ThalosBackend.Verification

open Js (Timestamp nonEmpty)
open Calls (ask)
open Profiles (Directory ProfileCall ProfileDb ProfileRow)
open Wallets (AuthUser Reply)

/-! ## Aggregation -/

/-- How timestamps are written, and how `localeCompare` compares texts. -/
structure Collation where
  timestampText : Timestamp → String
  localeCompare : String → String → ℤ

/-- `LEVEL_RANK`. -/
def levelRank : VerificationLevel → ℤ
  | .none => 0
  | .basic => 1
  | .standard => 2
  | .advanced => 3

/-- `isExpired(r)`. -/
def isExpired (now : Timestamp) (r : VerificationRecord) : Bool := r.expiresAt.any (· ≤ now)

/-- `r.status === 'verified' && !isExpired(r)`. -/
def isValidVerified (now : Timestamp) (r : VerificationRecord) : Bool :=
  r.status = .verified && !isExpired now r

/-- Of the better record and of the newer one, the first comes first. -/
def compareRecords (collation : Collation) (a b : VerificationRecord) : ℤ :=
  let byLevel := levelRank b.level - levelRank a.level
  if byLevel ≠ 0 then byLevel
  else collation.localeCompare (collation.timestampText b.updatedAt)
    (collation.timestampText a.updatedAt)

/-- `validVerified`. -/
def validVerified (collation : Collation) (now : Timestamp) (records : List VerificationRecord) :
    List VerificationRecord :=
  (records.filter (isValidVerified now)).insertionSort fun a b => compareRecords collation a b ≤ 0

/-- `lastUpdated`. -/
def lastUpdated (collation : Collation) (records : List VerificationRecord) : Option Timestamp :=
  ((records.map VerificationRecord.updatedAt).insertionSort fun s t =>
    collation.timestampText s ≤ collation.timestampText t).getLast?

/-- `effectiveUnverifiedStatus(records, isExpired)`. -/
def effectiveUnverifiedStatus (now : Timestamp) (records : List VerificationRecord) :
    VerificationStatus :=
  let has (s : VerificationStatus) : Bool := records.any fun r => r.status = s
  if has .pending then .pending
  else if has .expired || records.any fun r => r.status = .verified && isExpired now r then .expired
  else if has .rejected then .rejected
  else .unverified

/-- `notVerified(subjectType, subjectId)`. -/
def notVerified (subjectType : VerificationSubjectType) (subjectId : String) :
    VerificationStatusResponse where
  subjectType
  subjectId
  isVerified := false
  status := .unverified
  level := .none
  provider := none
  expiresAt := none
  lastUpdated := none

/-- `aggregate(subjectType, subjectId, records)`. -/
def aggregate (collation : Collation) (now : Timestamp) (subjectType : VerificationSubjectType)
    (subjectId : String) (records : List VerificationRecord) : VerificationStatusResponse :=
  if records = [] then notVerified subjectType subjectId
  else
    match (validVerified collation now records).head? with
    | some best =>
      { subjectType, subjectId
        isVerified := true
        status := .verified
        level := best.level
        provider := best.provider
        expiresAt := best.expiresAt
        lastUpdated := lastUpdated collation records }
    | none =>
      { subjectType, subjectId
        isVerified := false
        status := effectiveUnverifiedStatus now records
        level := .none
        provider := none
        expiresAt := none
        lastUpdated := lastUpdated collation records }

section Aggregate

variable {collation : Collation} {now : Timestamp} {subjectType : VerificationSubjectType}
  {subjectId : String} {records : List VerificationRecord} {r : VerificationRecord}

@[simp] theorem isValidVerified_iff :
    isValidVerified now r = true ↔ r.status = .verified ∧ isExpired now r = false := by
  simp [isValidVerified]

theorem mem_validVerified :
    r ∈ validVerified collation now records ↔
      r ∈ records ∧ r.status = .verified ∧ isExpired now r = false := by
  rw [validVerified, List.mem_insertionSort, List.mem_filter, isValidVerified_iff]

/-- What a subject without a valid verified record is told. -/
theorem aggregate_unverified (h : validVerified collation now records = []) :
    (aggregate collation now subjectType subjectId records).isVerified = false ∧
      (aggregate collation now subjectType subjectId records).level = .none := by
  rw [aggregate, h]
  split
  · exact ⟨rfl, rfl⟩
  · exact ⟨rfl, rfl⟩

/-- What a subject with one is told: the level is the one of the best. -/
theorem aggregate_verified {best : VerificationRecord} {others : List VerificationRecord}
    (h : validVerified collation now records = best :: others) :
    (aggregate collation now subjectType subjectId records).isVerified = true ∧
      (aggregate collation now subjectType subjectId records).level = best.level := by
  have hbest : best ∈ records := (mem_validVerified.mp (h ▸ List.mem_cons_self)).1
  rw [aggregate, if_neg (List.ne_nil_of_mem hbest), h]
  exact ⟨rfl, rfl⟩

/-- **Summaries tell of the records.** A subject is verified exactly when one of its records is verified
and has not expired. -/
theorem aggregate_isVerified :
    (aggregate collation now subjectType subjectId records).isVerified = true ↔
      ∃ r ∈ records, r.status = .verified ∧ isExpired now r = false := by
  cases hvalid : validVerified collation now records with
  | nil =>
      rw [(aggregate_unverified hvalid).1]
      constructor
      · intro h
        cases h
      · rintro ⟨r, hr, hverified⟩
        have hmem : r ∈ validVerified collation now records :=
          mem_validVerified.mpr ⟨hr, hverified⟩
        rw [hvalid] at hmem
        cases hmem
  | cons best others =>
      rw [(aggregate_verified hvalid).1]
      have hbest : best ∈ validVerified collation now records := hvalid ▸ List.mem_cons_self
      exact ⟨fun _ => ⟨best, mem_validVerified.mp hbest⟩, fun _ => rfl⟩

/-- The level in a summary is the level of a record, or none. -/
theorem aggregate_level :
    (aggregate collation now subjectType subjectId records).level = .none ∨
      ∃ r ∈ records, (aggregate collation now subjectType subjectId records).level = r.level := by
  cases hvalid : validVerified collation now records with
  | nil => exact .inl (aggregate_unverified hvalid).2
  | cons best others =>
      have hbest : best ∈ validVerified collation now records := hvalid ▸ List.mem_cons_self
      exact .inr ⟨best, (mem_validVerified.mp hbest).1, (aggregate_verified hvalid).2⟩

end Aggregate

/-! ## Queries -/

/-- The rows of `verifications`, and the users and profiles. -/
structure VerificationDb where
  profile : ProfileDb
  verifications : List VerificationRecord

/-- What the service asks the database. -/
inductive VerificationCall where
  /-- A query of users and profiles. -/
  | profile (c : ProfileCall)
  | findBySubject (subjectType : VerificationSubjectType) (subjectId : String)
  deriving DecidableEq

/-- What a query is answered with. -/
abbrev VerificationCall.reply : VerificationCall → Type
  | .profile c => c.reply
  | .findBySubject _ _ => Reply (List VerificationRecord)

/-- The rows of a subject. -/
def ofSubject (subjectType : VerificationSubjectType) (subjectId : String)
    (rows : List VerificationRecord) : List VerificationRecord :=
  rows.filter fun r => r.subjectType = subjectType && r.subjectId = subjectId

/-- What a query that does not fail is answered with. The order of the rows is open. -/
def Answers (directory : Directory) : (c : VerificationCall) → VerificationDb → c.reply →
    VerificationDb → Prop
  | .profile c, db, x, db' => ∃ profile, Profiles.Answers directory c db.profile x profile ∧
      db' = { db with profile := profile }
  | .findBySubject subjectType subjectId, db, x, db' =>
      (∃ rows, x = .ok rows ∧ rows.Perm (ofSubject subjectType subjectId db.verifications)) ∧ db' = db

/-! ## The service -/

/-- A program of the service. -/
abbrev VerificationProgram := Calls HttpException VerificationCall VerificationCall.reply

/-- `isAdmin(userId)`. -/
def isAdmin (userId : String) : VerificationProgram Bool := do
  let authUser ← ask (VerificationCall.profile (.wallet (.readAuthUser userId)))
  match nonEmpty ((Reply.data authUser).bind AuthUser.walletPublicKey) with
  | none => return false
  | some wallet =>
    let profile ← ask (VerificationCall.profile (.findByWallet wallet))
    return (Reply.data profile).map ProfileRow.role = some .admin

/-- `assertCanRead(subjectType, subjectId, ctx)`. -/
def assertCanRead (subjectType : VerificationSubjectType) (subjectId : String)
    (ctx : VerificationAccessContext) : VerificationProgram Unit := do
  if ctx.isInternalService then return
  match nonEmpty ctx.callerUserId with
  | none => .fail (.forbidden "Not authorized to view this verification status")
  | some callerUserId =>
    if subjectType = .user ∧ callerUserId = subjectId then return
    if ← isAdmin callerUserId then return
    .fail (.forbidden "Not authorized to view this verification status")

/-- `getStatus(subjectType, subjectId)`. -/
def getStatus (collation : Collation) (now : Timestamp) (subjectType : VerificationSubjectType)
    (subjectId : String) : VerificationProgram VerificationStatusResponse := do
  match ← ask (VerificationCall.findBySubject subjectType subjectId) with
  -- fails closed
  | .error _ => return notVerified subjectType subjectId
  | .ok records => return aggregate collation now subjectType subjectId records

/-- `getUserVerification(userId, ctx)`. -/
def getUserVerification (collation : Collation) (now : Timestamp) (userId : String)
    (ctx : VerificationAccessContext) : VerificationProgram VerificationStatusResponse := do
  assertCanRead .user userId ctx
  getStatus collation now .user userId

/-- `getBusinessVerification(businessId, ctx)`. -/
def getBusinessVerification (collation : Collation) (now : Timestamp) (businessId : String)
    (ctx : VerificationAccessContext) : VerificationProgram VerificationStatusResponse := do
  assertCanRead .business businessId ctx
  getStatus collation now .business businessId

section Told

variable {directory : Directory} {collation : Collation} {now : Timestamp} {db : VerificationDb}

/-- The response about a subject is made of its rows. -/
def Tells (collation : Collation) (now : Timestamp) (subjectType : VerificationSubjectType)
    (subjectId : String) (rows : List VerificationRecord) (res : VerificationStatusResponse) : Prop :=
  ∃ records, records.Perm (ofSubject subjectType subjectId rows) ∧
    res = aggregate collation now subjectType subjectId records

/-- A query about users and profiles leaves the rows alone. -/
theorem Answers.verifications {c : VerificationCall} {db' : VerificationDb} {x : c.reply}
    (h : Answers directory c db x db') : db'.verifications = db.verifications := by
  cases c with
  | profile c =>
      obtain ⟨profile, -, rfl⟩ := h
      rfl
  | findBySubject subjectType subjectId =>
      obtain ⟨-, rfl⟩ := h
      rfl

/-- Queries leave the rows alone. -/
theorem ensures_verifications {α : Type} (p : VerificationProgram α) :
    Calls.Ensures (Answers directory) p db fun _ db' => db'.verifications = db.verifications := by
  have honly : Calls.Only (fun _ => True) p := Calls.only_of_forall (fun _ => trivial) p
  refine honly.ensures (I := fun s => s.verifications = db.verifications) ?_ rfl fun _ _ h => h
  intro c s x s' _ hs hexec
  exact (Answers.verifications hexec).trans hs

theorem getStatus_tells (subjectType : VerificationSubjectType) (subjectId : String) :
    Calls.Ensures (Answers directory) (getStatus collation now subjectType subjectId) db
      fun out _ => ∀ res, out = .ok res →
        Tells collation now subjectType subjectId db.verifications res := by
  refine Calls.ensures_ask fun x db' hexec => ?_
  obtain ⟨⟨rows, rfl, hperm⟩, -⟩ := hexec
  intro res hres
  cases hres
  exact ⟨rows, hperm, rfl⟩

/-- **Who may read is told of the rows.** Whatever the access check reads first. -/
theorem getUserVerification_tells (userId : String) (ctx : VerificationAccessContext) :
    Calls.Ensures (Answers directory) (getUserVerification collation now userId ctx) db
      fun out _ => ∀ res, out = .ok res → Tells collation now .user userId db.verifications res := by
  refine Calls.ensures_bind.mpr ((ensures_verifications _).mono fun out db₁ hrows => ⟨?_, ?_⟩)
  · rintro - -
    rw [← hrows]
    exact getStatus_tells .user userId
  · rintro e - res hres
    cases hres

end Told

end ThalosBackend.Verification
