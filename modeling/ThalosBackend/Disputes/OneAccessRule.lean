import ThalosBackend.Agreements.AccessRule
import ThalosBackend.Disputes.DisputeOutcomes

/-!
# Two access rules

The agreements service looks at all wallets of a user, the disputes service only at the one of the
profile. Whoever passes in the disputes service passes in the agreements service; the other way round
it fails for a user who depends on a linked wallet.

`one_access_rule` says exactly for which stores the two services decide alike.
-/

set_option autoImplicit false

namespace ThalosBackend.Disputes

open Js (nonEmpty)
open Calls (Ensures)
open Agreements

/-! ## The condition -/

/-- A linked wallet lets the user pass, and the wallet of the profile does not. -/
def onlyThroughLinked (db : AgreementDb) (userId agreementId : String) : Bool :=
  (db.agreementAt agreementId).any fun a =>
    (linkedWallets db userId).any (admitsThrough db userId a) &&
      !(walletOf db userId).any (admitsThrough db userId a)

/-- The wallet is linked, and is not the one of the profile. -/
def onlyLinked (db : AgreementDb) (userId wallet : String) : Bool :=
  wallet ∈ linkedWallets db userId && walletOf db userId ≠ some wallet

/-! ## The disputes service -/

section Verdicts

variable {db : AgreementDb} {userId agreementId : String}

theorem canAccess_iff {a : Agreement} (ha : db.agreementAt agreementId = some a) :
    canAccess db userId agreementId = true ↔
      ∃ w, walletOf db userId = some w ∧ admitsThrough db userId a w = true := by
  obtain rfl := (mem_of_agreementAt ha).2
  cases hwallet : walletOf db userId with
  | none => simp [canAccess, hwallet]
  | some w =>
      simp only [canAccess, hwallet, ha, admitsThrough, decide_eq_true_eq, Option.some.injEq,
        exists_eq_left']
      constructor
      · rintro (hwallet | huser | hpart)
        · exact .inr (.inl hwallet)
        · exact .inl huser
        · exact .inr (.inr hpart)
      · rintro (huser | hwallet | hpart)
        · exact .inr (.inl huser)
        · exact .inl hwallet
        · exact .inr (.inr hpart)

theorem grants_access_iff :
    Grants (assertCanAccessAgreement userId agreementId) db ↔
      canAccess db userId agreementId = true := by
  apply grants_iff
  have hverdict : Ensures Answers (assertCanAccessAgreement userId agreementId >>= .done) db
      fun out _ => out = .ok () ↔ canAccess db userId agreementId = true := by
    apply answered_assertCanAccessAgreement
    · intro hyes
      exact iff_of_true rfl hyes
    · intro hno e
      exact iff_of_false nofun (by simp [hno])
  refine (Calls.ensures_bind.mp hverdict).mono ?_
  rintro (e | ⟨⟩) db' ⟨hok, herror⟩
  · exact herror e rfl
  · exact hok () rfl

theorem grants_actor_iff {wallet : String} :
    Grants (assertActorWallet userId wallet) db ↔ walletOf db userId = some wallet := by
  apply grants_iff
  have hverdict : Ensures Answers (assertActorWallet userId wallet >>= .done) db
      fun out _ => out = .ok () ↔ walletOf db userId = some wallet := by
    apply answered_assertActorWallet
    · intro hyes
      exact iff_of_true rfl hyes
    · intro hno e
      exact iff_of_false nofun hno
  refine (Calls.ensures_bind.mp hverdict).mono ?_
  rintro (e | ⟨⟩) db' ⟨hok, herror⟩
  · exact herror e rfl
  · exact hok () rfl

/-- A wallet of the user is linked, or is the one of the profile. -/
theorem mem_ownWallets_iff {wallet : String} :
    wallet ∈ ownWallets db userId ↔
      wallet ∈ linkedWallets db userId ∨ walletOf db userId = some wallet :=
  mem_ownWallets

/-- The services differ on the access of those who pass only through a linked wallet. -/
theorem canAccess_eq_iff :
    (canAccess db userId agreementId = true ↔ mayAccess db userId agreementId = true) ↔
      onlyThroughLinked db userId agreementId = false := by
  cases ha : db.agreementAt agreementId with
  | none =>
      have hno : canAccess db userId agreementId = false := by
        rw [canAccess, ha]
        cases walletOf db userId <;> rfl
      simp [hno, mayAccess, onlyThroughLinked, ha]
  | some a =>
      rw [canAccess_iff ha, mayAccess_iff ha, onlyThroughLinked, ha, Option.any_some,
        Bool.and_eq_false_iff, Bool.not_eq_false', Option.any_eq_true]
      constructor
      · intro hsame
        rw [or_iff_not_imp_left]
        intro hlinked
        obtain ⟨w, hw, hadmits⟩ := List.any_eq_true.mp (Bool.eq_true_of_not_eq_false hlinked)
        exact hsame.mpr ⟨w, mem_ownWallets_iff.mpr (.inl hw), hadmits⟩
      · intro hcondition
        constructor
        · rintro ⟨w, hw, hadmits⟩
          exact ⟨w, mem_ownWallets_iff.mpr (.inr hw), hadmits⟩
        · rintro ⟨w, hw, hadmits⟩
          rcases mem_ownWallets_iff.mp hw with hlinked | hprofile
          · rcases hcondition with hnone | hprofile
            · exact absurd hadmits (List.any_eq_false.mp hnone w hlinked)
            · exact hprofile
          · exact ⟨w, hprofile, hadmits⟩

/-- The services differ on the linked wallets that are not the one of the profile. -/
theorem actor_eq_iff {wallet : String} :
    (walletOf db userId = some wallet ↔ wallet ∈ ownWallets db userId) ↔
      onlyLinked db userId wallet = false := by
  rw [mem_ownWallets_iff, onlyLinked]
  by_cases hprofile : walletOf db userId = some wallet
  · simp [hprofile]
  · simp [hprofile]

end Verdicts

/-- **One access rule.** The two services let the same users pass exactly where no user passes through
a linked wallet alone, and accept the same wallets exactly where the wallet is not just a linked one. -/
theorem one_access_rule (db : AgreementDb) (userId agreementId actorWallet : String) :
    ((Grants (assertCanAccessAgreement userId agreementId) db ↔
        Grants (Agreements.assertCanAccessAgreement userId agreementId) db) ↔
      onlyThroughLinked db userId agreementId = false) ∧
    ((Grants (assertActorWallet userId actorWallet) db ↔
        Grants (Agreements.assertActorWallet userId actorWallet) db) ↔
      onlyLinked db userId actorWallet = false) := by
  constructor
  · rw [grants_access_iff, grants_iff assertCanAccessAgreement_all]
    exact canAccess_eq_iff
  · rw [grants_actor_iff, grants_iff assertActorWallet_all]
    exact actor_eq_iff

/-- `payer` has linked the wallet `W`, which takes part in an agreement of somebody else. -/
def linkedStore : AgreementDb :=
  let wallet : Wallets.UserWallet :=
    { id := "w", userId := "payer", walletAddress := "W", walletType := .freighter, label := none
      isPrimary := some false, isVerified := true, verifiedAt := none, authProvider := none
      pollarUserId := none, cAddress := none, createdAt := 0, updatedAt := 0 }
  let db := storeWith twoParties [(sampleDto "10" none splitTen).row.row "i" 0] []
  { db with
    wallet := { db.wallet with wallets := [wallet] }
    agreements := db.agreements.map fun a => { a with createdBy := "R" }
    participants := [⟨"i", "W", "payer"⟩] }

/-- `payer` may update the agreement, and may not open a dispute about it. -/
theorem not_one_access_rule : ¬ ∀ (db : AgreementDb) (userId agreementId : String),
    Grants (assertCanAccessAgreement userId agreementId) db ↔
      Grants (Agreements.assertCanAccessAgreement userId agreementId) db := by
  intro h
  have hsame := h linkedStore "payer" "i"
  rw [grants_access_iff, grants_iff assertCanAccessAgreement_all] at hsame
  exact absurd (canAccess_eq_iff.mp hsame) (by decide +kernel)

end ThalosBackend.Disputes
