import ThalosBackend.Agreements.AnsweringDb
import ThalosBackend.Disputes.DisputeOutcomes

/-!
# All or nothing

A dispute operation that fails should leave no trace. It does when the agreement accepts the change of
status, or when the operation fails before its first write; a stranded operation leaves the rows it
wrote. `all_or_nothing_iff` says for every store and request when that happens.
-/

set_option autoImplicit false

namespace ThalosBackend.Disputes

open Js (FloatArithmetic Timestamp)
open Agreements

/-- If every query is answered and the operation fails, the three tables are as they were. -/
def AllOrNothing {α : Type} (p : AgreementProgram α) (failed : α → Bool) (db : AgreementDb) : Prop :=
  ∀ out db', Calls.Runs Answers p db out db' → (∀ result, out = .ok result → failed result = true) →
    db'.disputes = db.disputes ∧ db'.resolutions = db.resolutions ∧
      db'.agreements = db.agreements

theorem exists_run {α : Type} (p : AgreementProgram α) (db : AgreementDb) :
    ∃ out db', Calls.Runs Answers p db out db' :=
  ⟨_, _, Calls.runs_run (fun c db => db.answers_answer c) p db⟩

section Operations

variable {F : FloatArithmetic} {now : Timestamp} {userId disputeId : String} {db : AgreementDb}

theorem openDispute_allOrNothing_iff {dto : OpenDisputeDto} :
    AllOrNothing (openDispute now userId dto) (fun result => result.error.isSome) db ↔
      (mayOpen db userId dto = true → (db.liveDisputes dto.agreementId).length = 1 ∨
        db.accepts dto.agreementId .disputed = true) := by
  have houtcome : ∀ out db', Calls.Runs Answers (openDispute now userId dto) db out db' →
      OpenOutcome now userId dto db out db' := Calls.ensures_iff.mp (openDispute_outcome dto)
  constructor
  · intro h hmay
    by_contra hneither
    obtain ⟨hcount, hno⟩ := not_or.mp hneither
    obtain ⟨out, db', hrun⟩ := exists_run (openDispute now userId dto) db
    cases houtcome out db' hrun with
    | refused e _ hrefused => rw [hmay] at hrefused; cases hrefused
    | present message _ _ hone => exact hcount hone
    | stranded e id created _ _ _ _ _ hsame =>
        have hkept := (h _ _ hrun fun _ hresult => by cases hresult).1
        rw [hsame.disputes] at hkept
        simp [withDispute] at hkept
    | opened id created _ _ _ hyes => exact hno hyes
  · intro h out db' hrun hfailed
    cases houtcome out db' hrun with
    | refused e _ _ hsame => exact ⟨hsame.disputes, hsame.resolutions, hsame.agreements⟩
    | present message _ _ _ hsame => exact ⟨hsame.disputes, hsame.resolutions, hsame.agreements⟩
    | stranded e id created _ hmay hcount hno =>
        rcases h hmay with hone | hyes
        · exact absurd hone hcount
        · rw [hno] at hyes; cases hyes
    | opened id created _ => cases hfailed _ rfl

theorem resolveDispute_allOrNothing_iff {dto : ResolveDisputeDto} :
    AllOrNothing (resolveDispute F now userId disputeId dto) (fun result => result.error.isSome) db ↔
      ∀ d, mayResolve F db userId disputeId dto = some d →
        db.accepts d.agreementId .resolved = true := by
  have houtcome : ∀ out db',
      Calls.Runs Answers (resolveDispute F now userId disputeId dto) db out db' →
        ResolveOutcome F now userId disputeId dto db out db' :=
    Calls.ensures_iff.mp (resolveDispute_outcome disputeId dto)
  constructor
  · intro h d hmay
    obtain ⟨out, db', hrun⟩ := exists_run (resolveDispute F now userId disputeId dto) db
    cases houtcome out db' hrun with
    | refused e _ hrefused => rw [hmay] at hrefused; cases hrefused
    | stranded d' _ id created _ _ _ _ hfailed hsame =>
        have hkept := (h _ _ hrun hfailed).2.1
        rw [hsame.resolutions] at hkept
        simp [withResolution, AgreementDb.changeDispute] at hkept
    | resolved d' id created _ hmay' hyes =>
        obtain rfl : d' = d := Option.some.inj (hmay'.symm.trans hmay)
        exact hyes
  · intro h out db' hrun hfailed
    cases houtcome out db' hrun with
    | refused e _ _ hsame => exact ⟨hsame.disputes, hsame.resolutions, hsame.agreements⟩
    | stranded d _ id created _ hmay hno =>
        rw [h d hmay] at hno
        cases hno
    | resolved d id created _ => cases hfailed _ rfl

theorem cancelDispute_allOrNothing_iff {dto : CancelDisputeDto} :
    AllOrNothing (cancelDispute now userId disputeId dto) (fun result => !result.success) db ↔
      ∀ d, mayCancel db userId disputeId dto = some d →
        db.accepts d.agreementId .active = true ∨ d.status = .cancelled ∧ d.updatedAt = now := by
  have houtcome : ∀ out db', Calls.Runs Answers (cancelDispute now userId disputeId dto) db out db' →
      CancelOutcome now userId disputeId dto db out db' :=
    Calls.ensures_iff.mp (cancelDispute_outcome disputeId dto)
  -- the one row under the id is rewritten, to itself or not
  have hrewritten : ∀ d, mayCancel db userId disputeId dto = some d →
      ((db.changeDispute disputeId (cancelUpdates now)).disputes = db.disputes ↔
        d.status = .cancelled ∧ d.updatedAt = now) := by
    intro d hmay
    rw [← apply_cancelUpdates]
    exact changeDispute_eq_self_iff (mayCancel_eq_some hmay).1
  constructor
  · intro h d hmay
    by_contra hneither
    obtain ⟨hno, hother⟩ := not_or.mp hneither
    obtain ⟨out, db', hrun⟩ := exists_run (cancelDispute now userId disputeId dto) db
    cases houtcome out db' hrun with
    | refused e _ hrefused => rw [hmay] at hrefused; cases hrefused
    | stranded d' e _ hmay' _ hsame =>
        have hkept := (h _ _ hrun fun _ hresult => by cases hresult).1
        rw [hsame.disputes] at hkept
        exact hother ((hrewritten d hmay).mp hkept)
    | cancelled d' _ hmay' hyes =>
        obtain rfl : d' = d := Option.some.inj (hmay'.symm.trans hmay)
        exact hno hyes
  · intro h out db' hrun hfailed
    cases houtcome out db' hrun with
    | refused e _ _ hsame => exact ⟨hsame.disputes, hsame.resolutions, hsame.agreements⟩
    | stranded d e _ hmay hno hsame =>
        rcases h d hmay with hyes | hself
        · rw [hno] at hyes; cases hyes
        · exact ⟨hsame.disputes.trans ((hrewritten d hmay).mpr hself), hsame.resolutions,
            hsame.agreements⟩
    | cancelled d _ => cases hfailed _ rfl

end Operations

/-- **All or nothing.** A failed `openDispute`, `resolveDispute` or `cancelDispute` leaves disputes,
resolutions and agreements as they were exactly when it fails before it writes, or the agreement
accepts the status (or the dispute has been cancelled at this very time already). -/
theorem all_or_nothing_iff (F : FloatArithmetic) (now : Timestamp) (userId : String)
    (db : AgreementDb) :
    (∀ dto, AllOrNothing (openDispute now userId dto) (fun result => result.error.isSome) db ↔
      (mayOpen db userId dto = true → (db.liveDisputes dto.agreementId).length = 1 ∨
        db.accepts dto.agreementId .disputed = true)) ∧
    (∀ disputeId dto, AllOrNothing (resolveDispute F now userId disputeId dto)
        (fun result => result.error.isSome) db ↔
      ∀ d, mayResolve F db userId disputeId dto = some d →
        db.accepts d.agreementId .resolved = true) ∧
    ∀ disputeId dto, AllOrNothing (cancelDispute now userId disputeId dto)
        (fun result => !result.success) db ↔
      ∀ d, mayCancel db userId disputeId dto = some d →
        db.accepts d.agreementId .active = true ∨ d.status = .cancelled ∧ d.updatedAt = now :=
  ⟨fun _ => openDispute_allOrNothing_iff, fun _ _ => resolveDispute_allOrNothing_iff,
    fun _ _ => cancelDispute_allOrNothing_iff⟩

/-- A dispute about a pending agreement is refused, and stays. -/
theorem not_all_or_nothing : ¬ ∀ (now : Timestamp) (userId : String) (db : AgreementDb),
    (∀ dto, AllOrNothing (openDispute now userId dto) (fun result => result.error.isSome) db) ∧
    (∀ disputeId dto, AllOrNothing (resolveDispute exactArithmetic now userId disputeId dto)
      (fun result => result.error.isSome) db) ∧
    ∀ disputeId dto, AllOrNothing (cancelDispute now userId disputeId dto)
      (fun result => !result.success) db := by
  intro h
  let pending := runAll exactArithmetic [createOperation "10" none splitTen] newStore
  let dto : OpenDisputeDto := ⟨"i", "P", "late", none⟩
  have hmay : mayOpen pending "payer" dto = true := by decide +kernel
  rcases openDispute_allOrNothing_iff.mp ((h 1 "payer" pending).1 dto) hmay with hone | hyes
  · exact absurd hone (by decide +kernel)
  · exact absurd hyes (by decide +kernel)

end ThalosBackend.Disputes
