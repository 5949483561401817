import ThalosBackend.Js.Date
import ThalosBackend.Js.Value

/-!
# Verification records

`verification/verification.types.ts` and the table `verifications` of migration 004: one row for each
subject and provider, whichever provider it is, and the response that is made of the rows of a subject.
-/

set_option autoImplicit false

namespace ThalosBackend.Verification

open Js (Timestamp Value)

inductive VerificationSubjectType where
  | user
  | business
  deriving DecidableEq

/-- Depth of the completed verification. -/
inductive VerificationLevel where
  /-- Nothing verified yet. -/
  | none
  | basic
  | standard
  | advanced
  deriving DecidableEq

inductive VerificationStatus where
  | unverified
  | pending
  | verified
  | expired
  | rejected
  deriving DecidableEq

/-- A row of `verifications`. -/
structure VerificationRecord where
  id : String
  subjectType : VerificationSubjectType
  subjectId : String
  provider : Option String
  providerReference : Option String
  status : VerificationStatus
  level : VerificationLevel
  verifiedAt : Option Timestamp
  expiresAt : Option Timestamp
  metadata : Value
  createdAt : Timestamp
  updatedAt : Timestamp
  deriving DecidableEq

/-- `VerificationAccessContext`. -/
structure VerificationAccessContext where
  callerUserId : Option String := none
  isInternalService : Bool := false
  deriving DecidableEq

/-- `VerificationStatusResponse`. -/
structure VerificationStatusResponse where
  subjectType : VerificationSubjectType
  subjectId : String
  isVerified : Bool
  status : VerificationStatus
  level : VerificationLevel
  provider : Option String
  expiresAt : Option Timestamp
  lastUpdated : Option Timestamp
  deriving DecidableEq

end ThalosBackend.Verification
