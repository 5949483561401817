import ThalosBackend.Kyc.KycRuns
import ThalosBackend.Profiles.AdminRights
import ThalosBackend.Verification.VerificationService

/-!
# What summaries say of KYC records

The verification service tells of a user that he is verified exactly when one of his records is, and has
not expired. The level it tells is the one of a record, and the KYC service gives every record the level
`none`, which means that nothing is verified yet; a webhook that approves a session leaves it there. So
a summary agrees with itself only about users who have no valid record.
-/

set_option autoImplicit false

namespace ThalosBackend.Kyc

open Js (Timestamp Value)
open Calls (Move Runs nextCall)
open Profiles (Directory ProfileDb)
open Verification (Collation VerificationAccessContext VerificationDb VerificationRecord
  VerificationStatusResponse getUserVerification isExpired)

/-! ## Summaries -/

/-- The user has a verified KYC record that has not expired. -/
def HasValid (rows : List VerificationRecord) (now : Timestamp) (userId : String) : Prop :=
  ∃ v ∈ rows, v.subjectType = .user ∧ v.subjectId = userId ∧ v.status = .verified ∧
    isExpired now v = false

/-- What is told of a user agrees with the records, and a verified user has a level. -/
structure SummaryCoherent (rows : List VerificationRecord) (now : Timestamp) (userId : String)
    (res : VerificationStatusResponse) : Prop where
  isVerified : res.isVerified = true ↔ HasValid rows now userId
  level : res.isVerified = true → res.level ≠ .none

/-- The service answers somebody who asks for the user at this time with this response. -/
def Reports (directory : Directory) (collation : Collation) (rows : List VerificationRecord)
    (now : Timestamp) (userId : String) (res : VerificationStatusResponse) : Prop :=
  ∃ (profile : ProfileDb) (ctx : VerificationAccessContext) (db' : VerificationDb),
    Runs (Verification.Answers directory) (getUserVerification collation now userId ctx)
      ⟨profile, rows⟩ (.ok res) db'

section Reports

variable {directory : Directory} {collation : Collation} {rows : List VerificationRecord}
  {now : Timestamp} {userId : String} {res : VerificationStatusResponse}

/-- A user is told to be verified exactly if he has a valid record. -/
theorem Reports.isVerified_iff (h : Reports directory collation rows now userId res) :
    res.isVerified = true ↔ HasValid rows now userId := by
  obtain ⟨profile, ctx, db', hrun⟩ := h
  obtain ⟨records, hperm, rfl⟩ :=
    Calls.ensures_iff.mp (Verification.getUserVerification_tells userId ctx) _ _ hrun res rfl
  rw [Verification.aggregate_isVerified]
  constructor
  · rintro ⟨v, hv, hverified⟩
    obtain ⟨hmem, hsubject⟩ := List.mem_filter.mp (hperm.mem_iff.mp hv)
    obtain ⟨htype, hid⟩ := Bool.and_eq_true_iff.mp hsubject
    exact ⟨v, hmem, of_decide_eq_true htype, of_decide_eq_true hid, hverified⟩
  · rintro ⟨v, hmem, htype, hid, hverified⟩
    have hsubject : v ∈ Verification.ofSubject .user userId rows :=
      List.mem_filter.mpr ⟨hmem, by simp [htype, hid]⟩
    exact ⟨v, hperm.mem_iff.mpr hsubject, hverified⟩

/-- The level that is told is no other than those of the records. -/
theorem Reports.level_eq_none (h : Reports directory collation rows now userId res)
    (hlevel : ∀ v ∈ rows, v.level = .none) : res.level = .none := by
  obtain ⟨profile, ctx, db', hrun⟩ := h
  obtain ⟨records, hperm, rfl⟩ :=
    Calls.ensures_iff.mp (Verification.getUserVerification_tells userId ctx) _ _ hrun res rfl
  rcases @Verification.aggregate_level collation now .user userId records with hnone | ⟨v, hv, heq⟩
  · exact hnone
  · rw [heq]
    exact hlevel v (List.mem_filter.mp (hperm.mem_iff.mp hv)).1

/-- An internal service is answered. -/
theorem reports_internal (directory : Directory) (collation : Collation)
    (rows : List VerificationRecord) (now : Timestamp) (userId : String) :
    ∃ res, Reports directory collation rows now userId res := by
  have hrun : Runs (Verification.Answers directory)
      (getUserVerification collation now userId ⟨none, true⟩) ⟨⟨Agreements.newStore.wallet, []⟩, rows⟩
      (.ok (Verification.aggregate collation now .user userId
        (Verification.ofSubject .user userId rows))) ⟨⟨Agreements.newStore.wallet, []⟩, rows⟩ :=
    ⟨_, _, ⟨⟨_, rfl, .refl _⟩, rfl⟩, rfl, rfl⟩
  exact ⟨_, _, _, _, hrun⟩

end Reports

/-! ## Runs -/

/-- The call leaves no row verified: no session is reported verified, and no webhook approves one that
is stored. -/
def Unapproved (db : KycDb) : KycCall → Prop
  | .insertVerification new => new.status ≠ .verified
  | .updateVerification id updates => updates.status = .verified → db.ofId id = []
  | .updateByReference reference updates => updates.status = .verified → db.ofReference reference = []
  | _ => True

section Runs

variable {sessions : Sessions} {allowed : KycDb → KycCall → Prop} {c : KycConfig}

/-- No record ever has a level. -/
theorem level_eq_none_of_reachable (h : (kycSystem sessions).Reachable c) :
    ∀ v ∈ c.shared.verifications, v.level = .none := by
  refine forall_rows_of_reachable ?_ ?_ ?_ (reachable_answering h)
  · rintro db new id created - ⟨hlevel, -⟩
    exact hlevel
  · rintro db id updates v - ⟨hlevel, -⟩ - -
    exact hlevel
  · -- a webhook leaves the level as it is
    rintro db reference updates v - - - hlevel
    exact hlevel

/-- Where nothing is approved, no record is verified. -/
theorem not_verified_of_reachable
    (h : ((kycSystem sessions).restrict (Answering Unapproved)).Reachable c) :
    ∀ v ∈ c.shared.verifications, v.status ≠ .verified := by
  refine forall_rows_of_reachable ?_ ?_ ?_ h
  · rintro db new id created hallowed -
    exact hallowed
  · rintro db id updates v hallowed - hv - hverified
    rw [hallowed hverified] at hv
    cases hv
  · rintro db reference updates v hallowed - hv - hverified
    rw [hallowed hverified] at hv
    cases hv

variable {directory : Directory} {collation : Collation} {now : Timestamp} {userId : String}
  {res : VerificationStatusResponse}

/-- A summary is coherent about users without a valid record, and about no other. -/
theorem summaryCoherent_iff (h : (kycSystem sessions).Reachable c)
    (hreports : Reports directory collation c.shared.verifications now userId res) :
    SummaryCoherent c.shared.verifications now userId res ↔
      ¬ HasValid c.shared.verifications now userId := by
  constructor
  · intro hcoherent hvalid
    have hlevel := hreports.level_eq_none (level_eq_none_of_reachable h)
    exact hcoherent.level (hcoherent.isVerified.mpr hvalid) hlevel
  · intro hnone
    refine ⟨hreports.isVerified_iff, fun hverified => ?_⟩
    exact absurd (hreports.isVerified_iff.mp hverified) hnone

/-- **Summaries are coherent.** In every run in which no provider approves a user, every summary agrees
with the records and with itself; in every run, exactly the summaries of the users who have no valid
record do. -/
theorem summaries_coherent :
    (∀ c, ((kycSystem sessions).restrict (Answering Unapproved)).Reachable c → ∀ now userId res,
      Reports directory collation c.shared.verifications now userId res →
        SummaryCoherent c.shared.verifications now userId res) ∧
    ∀ c, (kycSystem sessions).Reachable c → ∀ now userId res,
      Reports directory collation c.shared.verifications now userId res →
        (SummaryCoherent c.shared.verifications now userId res ↔
          ¬ HasValid c.shared.verifications now userId) := by
  refine ⟨fun c h now userId res hreports => ?_, fun c h now userId res hreports =>
    summaryCoherent_iff h hreports⟩
  refine (summaryCoherent_iff h.of_restrict hreports).mpr ?_
  rintro ⟨v, hv, -, -, hverified, -⟩
  exact not_verified_of_reachable h v hv hverified

end Runs

/-! ## An approval -/

/-- A provider whose sessions carry the user's id, and wait for a review. -/
def pendingSession : String → CreateSessionInput → Except HttpException SessionResult :=
  fun _ input => .ok ⟨input.userId, none, .object []⟩

/-- The session of the user `u`. -/
def pendingMoves : List (Move KycRequest) :=
  .start (.createSession "veriff" 0 "u" .undefined) :: List.replicate 3 (.next 0)

/-- Veriff approves it. -/
def approvalMoves : List (Move KycRequest) :=
  [.start (.webhook 1 (Veriff.processWebhook ⟨"u", "completed", none⟩)), .next 1]

/-- The call approves nobody. -/
def unapproved (db : KycDb) : KycCall → Bool
  | .insertVerification new => new.status ≠ .verified
  | .updateVerification id updates => updates.status ≠ .verified || db.ofId id = []
  | .updateByReference reference updates =>
    updates.status ≠ .verified || db.ofReference reference = []
  | _ => true

theorem unapproved_of_eq {db : KycDb} {call : KycCall} (h : unapproved db call = true) :
    Unapproved db call := by
  cases call with
  | insertVerification new =>
      exact (of_decide_eq_true h : new.status ≠ .verified)
  | updateVerification id updates =>
      intro hverified
      simpa [unapproved, hverified] using h
  | updateByReference reference updates =>
      intro hverified
      simpa [unapproved, hverified] using h
  | _ => trivial

/-- Texts are not compared. -/
def plainCollation : Collation := ⟨fun _ => "", fun _ _ => 0⟩

/-- A user who has begun a session is told of it coherently. -/
theorem summaries_coherent_begun : ∃ c,
    ((kycSystem (exactly pendingSession)).restrict (Answering Unapproved)).Reachable c ∧
      c.shared.verifications ≠ [] ∧
      ∃ res, Reports Profiles.plainDirectory plainCollation c.shared.verifications 0 "u" res ∧
        SummaryCoherent c.shared.verifications 0 "u" res := by
  have hrun : ((playKyc pendingSession (allowedMove unapproved) pendingMoves).any
      fun state => state.1.verifications ≠ []) = true := by decide +kernel
  obtain ⟨state, hstate, hrows⟩ := (Option.any_eq_true _ _).mp hrun
  have hreach := (reachable_playKyc hstate).guard_mono fun _ _ =>
    Answering.mono fun _ _ => unapproved_of_eq
  obtain ⟨res, hreports⟩ := reports_internal Profiles.plainDirectory plainCollation
    state.1.verifications 0 "u"
  exact ⟨_, hreach, of_decide_eq_true hrows, res, hreports,
    summaries_coherent.1 _ hreach 0 "u" res hreports⟩

/-- The user whom Veriff approves is told to be verified at the level `none`. -/
theorem not_summaries_coherent :
    ¬ ∀ sessions c directory collation now userId res, (kycSystem sessions).Reachable c →
      Reports directory collation c.shared.verifications now userId res →
        SummaryCoherent c.shared.verifications now userId res := by
  intro hall
  have hrun : ((playKyc pendingSession (allowedMove fun _ _ => true)
      (pendingMoves ++ approvalMoves)).any fun state => state.1.verifications.any fun v =>
        v.subjectType = .user && v.subjectId = "u" && v.status = .verified && !isExpired 2 v) =
          true := by decide +kernel
  obtain ⟨state, hstate, hrow⟩ := (Option.any_eq_true _ _).mp hrun
  obtain ⟨v, hv, hvalid⟩ := List.any_eq_true.mp hrow
  simp only [Bool.and_eq_true, decide_eq_true_eq, Bool.not_eq_true'] at hvalid
  obtain ⟨⟨⟨htype, hid⟩, hverified⟩, hexpired⟩ := hvalid
  have hreach := (reachable_playKyc hstate).of_restrict
  obtain ⟨res, hreports⟩ := reports_internal Profiles.plainDirectory plainCollation
    state.1.verifications 2 "u"
  have hcoherent := hall _ _ _ _ _ _ _ hreach hreports
  exact (summaryCoherent_iff hreach hreports).mp hcoherent ⟨v, hv, htype, hid, hverified, hexpired⟩

end ThalosBackend.Kyc
