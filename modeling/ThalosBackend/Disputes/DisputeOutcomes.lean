import ThalosBackend.Agreements.AnsweredQueries
import ThalosBackend.Disputes.DisputesService

/-!
# What the dispute operations come to

Every query of an operation is answered here; none fails. An operation is then decided by the store
it finds: whether the caller may act, and whether the agreement accepts the change of status, which is
asked for last. When it does not, the rows written before stay: such an operation is stranded.

`mayOpen`, `mayAssign`, `mayResolve` and `mayCancel` are the checks before the first write, and
`accepts` is the check after it.
-/

set_option autoImplicit false

namespace ThalosBackend.Disputes

open Js (FloatArithmetic Timestamp Value nonEmpty)
open Calls (ask Ensures)
open Wallets (Reply)
open Agreements

/-! ## Who may act -/

/-- The wallet of a user, as the disputes service knows it. -/
def walletOf (db : AgreementDb) (userId : String) : Option String :=
  nonEmpty (db.wallet.publicKey userId)

/-- `assertCanAccessAgreement` lets the user pass. -/
def canAccess (db : AgreementDb) (userId agreementId : String) : Bool :=
  match walletOf db userId, db.agreementAt agreementId with
  | some wallet, some a => a.createdBy = wallet ∨ a.createdBy = userId ∨
      ∃ p ∈ db.participants, p.agreementId = agreementId ∧ p.walletAddress = wallet
  | _, _ => false

section Access

variable {α : Type} {db : AgreementDb} {Q : Except HttpException α → AgreementDb → Prop}

theorem answered_walletForUserId {userId : String} {f : Option String → AgreementProgram α}
    (h : Ensures Answers (f (walletOf db userId)) db Q) :
    Ensures Answers (walletForUserId userId >>= f) db Q := by
  refine Calls.ensures_bind.mpr (Calls.ensures_ask fun x db₁ hx => ?_)
  obtain ⟨wallet, ⟨rfl, rfl⟩, rfl⟩ := hx
  refine ⟨fun a ha => ?_, fun e he => by cases he⟩
  cases ha
  exact h

theorem answered_assertActorWallet {userId actorWallet : String} {f : Unit → AgreementProgram α}
    (hok : walletOf db userId = some actorWallet → Ensures Answers (f ()) db Q)
    (hrefused : walletOf db userId ≠ some actorWallet → ∀ e, Q (.error e) db) :
    Ensures Answers (assertActorWallet userId actorWallet >>= f) db Q := by
  refine Calls.ensures_bind.mpr (answered_walletForUserId ?_)
  split
  · rename_i hne
    exact ⟨fun _ he => (by cases he), fun e _ => hrefused hne e⟩
  · rename_i heq
    exact ⟨fun _ _ => hok (not_not.mp heq), fun e he => by cases he⟩

theorem answered_assertCanAccessAgreement {userId agreementId : String}
    {f : Unit → AgreementProgram α}
    (hok : canAccess db userId agreementId = true → Ensures Answers (f ()) db Q)
    (hrefused : canAccess db userId agreementId = false → ∀ e, Q (.error e) db) :
    Ensures Answers (assertCanAccessAgreement userId agreementId >>= f) db Q := by
  have hdenied : canAccess db userId agreementId = false → ∀ e : HttpException,
      (∀ a, Except.error e = Except.ok a → Ensures Answers (f a) db Q) ∧
        ∀ e', Except.error (α := Unit) e = .error e' → Q (.error e') db :=
    fun hno e => ⟨fun _ he => (by cases he), fun e' _ => hrefused hno e'⟩
  have hgranted : canAccess db userId agreementId = true →
      (∀ a, Except.ok () = Except.ok (ε := HttpException) a → Ensures Answers (f a) db Q) ∧
        ∀ e', Except.ok () = .error e' → Q (.error e') db :=
    fun hyes => ⟨fun _ _ => hok hyes, fun _ he => (by cases he)⟩
  refine Calls.ensures_bind.mpr (answered_walletForUserId ?_)
  cases hwallet : walletOf db userId with
  | none => exact hdenied (by simp [canAccess, hwallet]) _
  | some wallet =>
      refine Calls.ensures_ask fun x db₁ hx => ?_
      obtain ⟨rfl, rfl⟩ := hx
      rw [data_maybeSingle]
      cases hfound : db₁.agreementAt agreementId with
      | none =>
          have hsole := hfound
          rw [AgreementDb.agreementAt] at hsole
          rw [hsole]
          exact hdenied (by simp [canAccess, hwallet, hfound]) _
      | some a =>
          have hsole := hfound
          rw [AgreementDb.agreementAt] at hsole
          rw [hsole]
          dsimp only
          split
          · rename_i hcreator
            exact hgranted (by simp [canAccess, hwallet, hfound, ← or_assoc, hcreator])
          · rename_i hcreator
            -- neither creator nor counterparty: the participants are searched
            refine Calls.ensures_ask fun parts db₂ hparts => ?_
            obtain ⟨hparts, rfl⟩ := hparts
            split at hparts
            · rename_i hnobody
              subst hparts
              refine hdenied ?_ _
              have hothers := List.filter_eq_nil_iff.mp hnobody
              simp only [not_or] at hcreator
              simp only [canAccess, hwallet, hfound, hcreator, false_or, decide_eq_false_iff_not]
              rintro ⟨p, hp, hagreement, haddress⟩
              exact hothers p hp (by simp [hagreement, haddress])
            · rename_i p ps hsomebody
              obtain ⟨q, hq, rfl⟩ := hparts
              refine hgranted ?_
              rw [← hsomebody, List.mem_filter] at hq
              simp only [canAccess, hwallet, hfound, decide_eq_true_eq]
              exact .inr (.inr ⟨q, hq.1, by simpa using hq.2⟩)

end Access

/-! ## Open -/

section Outcomes

variable {F : FloatArithmetic} {now : Timestamp} {userId : String} {db : AgreementDb}

/-- `openDispute` lets the caller pass. -/
def mayOpen (db : AgreementDb) (userId : String) (dto : OpenDisputeDto) : Bool :=
  canAccess db userId dto.agreementId && walletOf db userId = some dto.openedBy

/-- The row `openDispute` inserts. -/
def OpenDisputeDto.row (dto : OpenDisputeDto) : NewDispute :=
  ⟨dto.agreementId, dto.openedBy, dto.reason, dto.evidenceUrls.getD []⟩

/-- The store with a new dispute. -/
def withDispute (db : AgreementDb) (d : Dispute) : AgreementDb :=
  { db with disputes := db.disputes ++ [d] }

/-- The ends of `openDispute`. -/
inductive OpenOutcome (now : Timestamp) (userId : String) (dto : OpenDisputeDto) (db : AgreementDb) :
    Except HttpException OpenDisputeResult → AgreementDb → Prop where
  | refused (e : HttpException) (db' : AgreementDb) : mayOpen db userId dto = false →
      SameTables db db' → OpenOutcome now userId dto db (.error e) db'
  | present (message : String) (db' : AgreementDb) : mayOpen db userId dto = true →
      (db.liveDisputes dto.agreementId).length = 1 → SameTables db db' →
      OpenOutcome now userId dto db (.ok ⟨none, some message⟩) db'
  | stranded (e : HttpException) (id : String) (created : Timestamp) (db' : AgreementDb) :
      mayOpen db userId dto = true → (db.liveDisputes dto.agreementId).length ≠ 1 →
      db.accepts dto.agreementId .disputed = false → (∀ d ∈ db.disputes, d.id ≠ id) →
      SameTables (withDispute db (dto.row.row id created)) db' →
      OpenOutcome now userId dto db (.error e) db'
  | opened (id : String) (created : Timestamp) (db' : AgreementDb) :
      mayOpen db userId dto = true → (db.liveDisputes dto.agreementId).length ≠ 1 →
      db.accepts dto.agreementId .disputed = true → (∀ d ∈ db.disputes, d.id ≠ id) →
      SameTables ((withDispute db (dto.row.row id created)).changeStatus now dto.agreementId
        .disputed) db' →
      OpenOutcome now userId dto db (.ok ⟨some (dto.row.row id created), none⟩) db'

theorem isSome_sole {α : Type} (rows : List α) :
    (Table.sole rows).isSome = true ↔ rows.length = 1 := by
  match rows with
  | [] => simp [Table.sole]
  | [_] => simp [Table.sole]
  | _ :: _ :: _ => simp [Table.sole]

theorem openDispute_outcome (dto : OpenDisputeDto) :
    Ensures Answers (openDispute now userId dto) db (OpenOutcome now userId dto db) := by
  refine answered_assertCanAccessAgreement (fun haccess => ?_) fun hdenied e => ?_
  · refine answered_assertActorWallet (fun hwallet => ?_) fun hwallet e => ?_
    · have hmay : mayOpen db userId dto = true := by simp [mayOpen, haccess, hwallet]
      refine Calls.ensures_ask fun existing db₁ hexisting => ?_
      obtain ⟨rfl, rfl⟩ := hexisting
      rw [data_maybeSingle]
      split
      · rename_i hlive
        exact .present _ _ hmay ((isSome_sole _).mp hlive) (.refl _)
      · rename_i hlive
        have hcount : (db₁.liveDisputes dto.agreementId).length ≠ 1 :=
          fun hone => hlive ((isSome_sole _).mpr hone)
        refine Calls.ensures_ask fun inserted db₂ hinserted => ?_
        obtain ⟨id, created, hfresh, rfl, rfl⟩ := hinserted
        refine answered_applyStatusChange (fun _ hno => ⟨fun result hresult => ?_, fun e => ?_⟩)
          fun haccepts result db₃ hresult hsame => ?_
        · rw [hresult]
          exact .stranded _ id created _ hmay hcount hno hfresh (.refl _)
        · exact .stranded e id created _ hmay hcount hno hfresh (.refl _)
        · rw [hresult]
          refine answered_logActivity fun db₄ h₄ => ?_
          refine answered_emit fun db₅ h₅ => ?_
          exact .opened id created _ hmay hcount (haccepts rfl) hfresh (hsame.trans (h₄.trans h₅))
    · exact .refused e _ (by simp [mayOpen, hwallet]) (.refl _)
  · exact .refused e _ (by simp [mayOpen, hdenied]) (.refl _)

/-! ## Assign -/

/-- The dispute `assignResolver` goes on with. -/
def mayAssign (db : AgreementDb) (userId disputeId : String) : Option Dispute :=
  (db.disputeAt disputeId).filter fun d => canAccess db userId d.agreementId && d.status = .opened

/-- The update of `assignResolver`. -/
def assignUpdates (now : Timestamp) (dto : AssignResolverDto) : DisputeUpdates where
  status := .underReview
  resolverWallet := some dto.resolverWallet
  updatedAt := now

/-- The ends of `assignResolver`. -/
inductive AssignOutcome (now : Timestamp) (userId disputeId : String) (dto : AssignResolverDto)
    (db : AgreementDb) : Except HttpException SuccessResult → AgreementDb → Prop where
  | refused (e : HttpException) (db' : AgreementDb) : mayAssign db userId disputeId = none →
      SameTables db db' → AssignOutcome now userId disputeId dto db (.error e) db'
  | assigned (d : Dispute) (db' : AgreementDb) : mayAssign db userId disputeId = some d →
      SameTables (db.changeDispute disputeId (assignUpdates now dto)) db' →
      AssignOutcome now userId disputeId dto db (.ok ⟨true, none⟩) db'

theorem assignResolver_outcome (disputeId : String) (dto : AssignResolverDto) :
    Ensures Answers (assignResolver now userId disputeId dto) db
      (AssignOutcome now userId disputeId dto db) := by
  refine answered_findDispute fun found hfound => ?_
  rw [hfound]
  cases hdispute : db.disputeAt disputeId with
  | none => exact .refused _ _ (by simp [mayAssign, hdispute]) (.refl _)
  | some d =>
      refine answered_assertCanAccessAgreement (fun haccess => ?_) fun hdenied e => ?_
      · split
        · rename_i hstatus
          exact .refused _ _ (by simp [mayAssign, hdispute, hstatus]) (.refl _)
        · rename_i hstatus
          have hmay : mayAssign db userId disputeId = some d := by
            simpa [mayAssign, hdispute, haccess, Option.filter] using hstatus
          refine Calls.ensures_ask fun x db₁ hx => ?_
          obtain ⟨rfl, rfl⟩ := hx
          refine answered_logActivity fun db₂ h₂ => ?_
          exact .assigned d _ hmay h₂
      · exact .refused _ _ (by simp [mayAssign, hdispute, hdenied]) (.refl _)

/-! ## Resolve -/

/-- The dispute `resolveDispute` goes on with. -/
def mayResolve (F : FloatArithmetic) (db : AgreementDb) (userId disputeId : String)
    (dto : ResolveDisputeDto) : Option Dispute :=
  if walletOf db userId = some dto.resolvedBy ∧
      (F.add dto.payerPercentage dto.payeePercentage).strictEq 100 then
    (db.disputeAt disputeId).filter fun d =>
      d.status ≠ .resolved && nonEmpty d.resolverWallet = some dto.resolvedBy
  else none

/-- The row `resolveDispute` inserts. -/
def ResolveDisputeDto.row (dto : ResolveDisputeDto) (disputeId : String) : NewResolution :=
  ⟨disputeId, dto.resolvedBy, dto.payerPercentage, dto.payeePercentage,
    dto.resolutionNotes.getD ""⟩

/-- The store with a new resolution, whose dispute is resolved. -/
def withResolution (db : AgreementDb) (now : Timestamp) (resolution : DisputeResolution) :
    AgreementDb :=
  { db with resolutions := db.resolutions ++ [resolution] }.changeDispute resolution.disputeId
    { status := .resolved, resolvedAt := some now, updatedAt := now }

/-- The ends of `resolveDispute`. -/
inductive ResolveOutcome (F : FloatArithmetic) (now : Timestamp) (userId disputeId : String)
    (dto : ResolveDisputeDto) (db : AgreementDb) :
    Except HttpException ResolveDisputeResult → AgreementDb → Prop where
  | refused (e : HttpException) (db' : AgreementDb) : mayResolve F db userId disputeId dto = none →
      SameTables db db' → ResolveOutcome F now userId disputeId dto db (.error e) db'
  | stranded (d : Dispute) (out : Except HttpException ResolveDisputeResult) (id : String)
      (created : Timestamp) (db' : AgreementDb) : mayResolve F db userId disputeId dto = some d →
      db.accepts d.agreementId .resolved = false → (∀ r ∈ db.resolutions, r.id ≠ id) →
      (∀ result, out = .ok result → result.error.isSome = true) →
      SameTables (withResolution db now ((dto.row disputeId).row id created)) db' →
      ResolveOutcome F now userId disputeId dto db out db'
  | resolved (d : Dispute) (id : String) (created : Timestamp) (db' : AgreementDb) :
      mayResolve F db userId disputeId dto = some d →
      db.accepts d.agreementId .resolved = true → (∀ r ∈ db.resolutions, r.id ≠ id) →
      SameTables ((withResolution db now ((dto.row disputeId).row id created)).changeStatus now
        d.agreementId .resolved) db' →
      ResolveOutcome F now userId disputeId dto db
        (.ok ⟨some ((dto.row disputeId).row id created), none⟩) db'

theorem resolveDispute_outcome (disputeId : String) (dto : ResolveDisputeDto) :
    Ensures Answers (resolveDispute F now userId disputeId dto) db
      (ResolveOutcome F now userId disputeId dto db) := by
  refine answered_assertActorWallet (fun hwallet => ?_) fun hwallet e => ?_
  · split
    · rename_i hsum
      refine .refused _ _ (if_neg fun h => ?_) (.refl _)
      rw [h.2] at hsum
      cases hsum
    · rename_i hsum
      have hmay : mayResolve F db userId disputeId dto = (db.disputeAt disputeId).filter fun d =>
          d.status ≠ .resolved && nonEmpty d.resolverWallet = some dto.resolvedBy :=
        if_pos ⟨hwallet, by simpa using hsum⟩
      refine answered_findDispute fun found hfound => ?_
      rw [hfound]
      cases hdispute : db.disputeAt disputeId with
      | none =>
          refine .refused _ _ ?_ (.refl _)
          rw [hmay, hdispute]
          rfl
      | some d =>
          rw [hdispute] at hmay
          dsimp only
          split
          · rename_i hstatus
            exact .refused _ _ (by simp [hmay, hstatus]) (.refl _)
          · rename_i hstatus
            split
            · rename_i hresolver
              exact .refused _ _ (by simp [hmay, hresolver]) (.refl _)
            · rename_i hresolver
              have hmay : mayResolve F db userId disputeId dto = some d := by
                simpa [hmay, Option.filter, hstatus] using hresolver
              refine Calls.ensures_ask fun inserted db₁ hinserted => ?_
              obtain ⟨id, created, hfresh, rfl, rfl⟩ := hinserted
              refine Calls.ensures_ask fun updated db₂ hupdated => ?_
              obtain ⟨rfl, rfl⟩ := hupdated
              refine answered_applyStatusChange
                (fun _ hno => ⟨fun result hresult => ?_, fun e => ?_⟩)
                fun haccepts result db₃ hresult hsame => ?_
              · -- the agreement does not accept the status; the resolution is written by now
                rw [hresult]
                refine .stranded d _ id created _ hmay hno hfresh (fun _ h => ?_) (.refl _)
                cases h
                rfl
              · refine .stranded d _ id created _ hmay hno hfresh (fun _ h => ?_) (.refl _)
                cases h
              · rw [hresult]
                refine answered_logActivity fun db₄ h₄ => ?_
                refine answered_emit fun db₅ h₅ => ?_
                exact .resolved d id created _ hmay (haccepts rfl) hfresh
                  (hsame.trans (h₄.trans h₅))
  · exact .refused e _ (by simp [mayResolve, hwallet]) (.refl _)

/-! ## Cancel -/

/-- The dispute `cancelDispute` goes on with. -/
def mayCancel (db : AgreementDb) (userId disputeId : String) (dto : CancelDisputeDto) :
    Option Dispute :=
  if walletOf db userId = some dto.cancelledBy then
    (db.disputeAt disputeId).filter fun d => d.openedBy = dto.cancelledBy && d.status ≠ .resolved
  else none

/-- The update of `cancelDispute`. -/
def cancelUpdates (now : Timestamp) : DisputeUpdates where
  status := .cancelled
  updatedAt := now

/-- The ends of `cancelDispute`. -/
inductive CancelOutcome (now : Timestamp) (userId disputeId : String) (dto : CancelDisputeDto)
    (db : AgreementDb) : Except HttpException SuccessResult → AgreementDb → Prop where
  | refused (e : HttpException) (db' : AgreementDb) : mayCancel db userId disputeId dto = none →
      SameTables db db' → CancelOutcome now userId disputeId dto db (.error e) db'
  | stranded (d : Dispute) (e : HttpException) (db' : AgreementDb) :
      mayCancel db userId disputeId dto = some d → db.accepts d.agreementId .active = false →
      SameTables (db.changeDispute disputeId (cancelUpdates now)) db' →
      CancelOutcome now userId disputeId dto db (.error e) db'
  | cancelled (d : Dispute) (db' : AgreementDb) : mayCancel db userId disputeId dto = some d →
      db.accepts d.agreementId .active = true →
      SameTables ((db.changeDispute disputeId (cancelUpdates now)).changeStatus now d.agreementId
        .active) db' →
      CancelOutcome now userId disputeId dto db (.ok ⟨true, none⟩) db'

/-- The agreement goes back to work if it may. -/
theorem answered_reactivate {disputeId agreementId : String} {dto : CancelDisputeDto}
    {Q : Except HttpException SuccessResult → AgreementDb → Prop}
    (hrefused : db.accepts agreementId .active = false → ∀ e, Q (.error e) db)
    (haccepted : db.accepts agreementId .active = true → ∀ db',
      SameTables (db.changeStatus now agreementId .active) db' → Q (.ok ⟨true, none⟩) db') :
    Ensures Answers (reactivate now disputeId agreementId dto) db Q := by
  refine answered_getAgreement (fun a ha => ?_) fun hnone e => ?_
  · have haccepts : db.accepts agreementId .active =
        canTransition (statusText a.status) "active" := by
      rw [AgreementDb.accepts, ha, Option.any_some]
      rfl
    dsimp only
    split
    · rename_i reason hreason
      refine hrefused ?_ _
      rw [haccepts, Bool.eq_false_iff]
      intro hedge
      rw [validateTransition_eq_ok.mpr hedge] at hreason
      cases hreason
    · rename_i hvalid
      have hyes := haccepts.trans (validateTransition_eq_ok.mp hvalid)
      refine answered_applyStatusChange (fun hwhy hno => ?_) fun _ result db₁ hresult hsame => ?_
      · rw [hyes] at hno
        cases hno
      · rw [hresult]
        refine answered_logActivity fun db₂ h₂ => ?_
        exact haccepted hyes _ (hsame.trans h₂)
  · exact hrefused (by rw [AgreementDb.accepts, hnone, Option.any_none]) _

theorem cancelDispute_outcome (disputeId : String) (dto : CancelDisputeDto) :
    Ensures Answers (cancelDispute now userId disputeId dto) db
      (CancelOutcome now userId disputeId dto db) := by
  refine answered_assertActorWallet (fun hwallet => ?_) fun hwallet e => ?_
  · have hmay : mayCancel db userId disputeId dto = (db.disputeAt disputeId).filter fun d =>
        d.openedBy = dto.cancelledBy && d.status ≠ .resolved := if_pos hwallet
    refine answered_findDispute fun found hfound => ?_
    rw [hfound]
    cases hdispute : db.disputeAt disputeId with
    | none =>
        refine .refused _ _ ?_ (.refl _)
        rw [hmay, hdispute]
        rfl
    | some d =>
        rw [hdispute] at hmay
        dsimp only
        split
        · rename_i hopener
          exact .refused _ _ (by simp [hmay, hopener]) (.refl _)
        · rename_i hopener
          split
          · rename_i hstatus
            exact .refused _ _ (by simp [hmay, hstatus]) (.refl _)
          · rename_i hstatus
            have hmay : mayCancel db userId disputeId dto = some d := by
              simpa [hmay, Option.filter, hstatus] using hopener
            refine Calls.ensures_ask fun x db₁ hx => ?_
            obtain ⟨rfl, rfl⟩ := hx
            refine answered_reactivate (fun hno e => ?_) fun hyes db' hsame => ?_
            · exact .stranded d e _ hmay hno (.refl _)
            · exact .cancelled d db' hmay hyes hsame
  · exact .refused e _ (by simp [mayCancel, hwallet]) (.refl _)

/-! ## What the checks say -/

theorem mayAssign_eq_some {userId disputeId : String} {d : Dispute}
    (h : mayAssign db userId disputeId = some d) :
    db.disputeAt disputeId = some d ∧ d.status = .opened := by
  obtain ⟨hat, hmay⟩ := Option.filter_eq_some_iff.mp h
  simp only [Bool.and_eq_true, decide_eq_true_eq] at hmay
  exact ⟨hat, hmay.2⟩

theorem mayResolve_eq_some {userId disputeId : String} {dto : ResolveDisputeDto} {d : Dispute}
    (h : mayResolve F db userId disputeId dto = some d) :
    db.disputeAt disputeId = some d ∧ d.status ≠ .resolved := by
  unfold mayResolve at h
  split at h
  · obtain ⟨hat, hmay⟩ := Option.filter_eq_some_iff.mp h
    simp only [Bool.and_eq_true, decide_eq_true_eq] at hmay
    exact ⟨hat, hmay.1⟩
  · cases h

/-- Who resolves a dispute has the wallet of its resolver. -/
theorem resolver_of_mayResolve {userId disputeId : String} {dto : ResolveDisputeDto} {d : Dispute}
    (h : mayResolve F db userId disputeId dto = some d) :
    walletOf db userId = some dto.resolvedBy ∧ d.resolverWallet = some dto.resolvedBy := by
  unfold mayResolve at h
  split at h
  · rename_i hwallet
    obtain ⟨-, hmay⟩ := Option.filter_eq_some_iff.mp h
    simp only [Bool.and_eq_true, decide_eq_true_eq] at hmay
    exact ⟨hwallet.1, (Js.nonEmpty_eq_some.mp hmay.2).1⟩
  · cases h

theorem mayCancel_eq_some {userId disputeId : String} {dto : CancelDisputeDto} {d : Dispute}
    (h : mayCancel db userId disputeId dto = some d) :
    db.disputeAt disputeId = some d ∧ d.status ≠ .resolved := by
  unfold mayCancel at h
  split at h
  · obtain ⟨hat, hmay⟩ := Option.filter_eq_some_iff.mp h
    simp only [Bool.and_eq_true, decide_eq_true_eq] at hmay
    exact ⟨hat, hmay.2⟩
  · cases h

/-- The dispute is as `cancelDispute` leaves it. -/
theorem apply_cancelUpdates {d : Dispute} : d.apply (cancelUpdates now) = d ↔
    d.status = .cancelled ∧ d.updatedAt = now := by
  constructor
  · intro h
    refine ⟨?_, ?_⟩
    · rw [← h]; rfl
    · rw [← h]; rfl
  · rintro ⟨hstatus, hupdated⟩
    obtain ⟨id, agreementId, openedBy, reason, evidenceUrls, status, resolverWallet, createdAt,
      updatedAt, resolvedAt⟩ := d
    subst hstatus hupdated
    rfl

end Outcomes

end ThalosBackend.Disputes
