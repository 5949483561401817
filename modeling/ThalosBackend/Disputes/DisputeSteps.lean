import ThalosBackend.Agreements.AgreementRuns
import ThalosBackend.Disputes.DisputeOutcomes

/-!
# What operations do to the disputes

Only the four operations of the disputes service write `disputes`, and each writes at most one row:
a new dispute that is open, or another status of the dispute it has found and checked. That holds
whichever queries fail, since a check whose query fails refuses the request. `operation_disputes` says
so for every operation.
-/

set_option autoImplicit false

namespace ThalosBackend.Agreements

/-- The call writes neither disputes nor wallets. -/
def AgreementCall.sparesDisputes (c : AgreementCall) : Bool :=
  c.isQuiet || match c with
    | .insertAgreement _ | .deleteAgreement _ | .updateAgreement _ _
    | .changeStatusByContract _ _ _ | .updateByContract _ _ | .insertResolution _ => true
    | _ => false

/-- The disputes are the same, and the wallets. -/
structure SameDisputes (db db' : AgreementDb) : Prop where
  wallet : db'.wallet = db.wallet
  disputes : db'.disputes = db.disputes

theorem SameDisputes.refl (db : AgreementDb) : SameDisputes db db := ⟨rfl, rfl⟩

theorem SameDisputes.trans {db₁ db₂ db₃ : AgreementDb} (h : SameDisputes db₁ db₂)
    (h' : SameDisputes db₂ db₃) : SameDisputes db₁ db₃ :=
  ⟨h'.wallet.trans h.wallet, h'.disputes.trans h.disputes⟩

theorem SameTables.sameDisputes {db db' : AgreementDb} (h : SameTables db db') :
    SameDisputes db db' := ⟨h.wallet, h.disputes⟩

/-- A call that spares the disputes, answered or not. -/
theorem Executes.sameDisputes {c : AgreementCall} {db db' : AgreementDb} {x : c.reply}
    (h : Executes c db x db') (hspares : c.sparesDisputes = true) : SameDisputes db db' := by
  rcases (Bool.or_eq_true _ _).mp hspares with hquiet | hwrites
  · exact (h.sameTables hquiet).sameDisputes
  · rcases h with h | ⟨-, -, hsame⟩
    · cases c with
      | insertAgreement new =>
          obtain ⟨id, created, -, -, rfl⟩ := h
          exact ⟨rfl, rfl⟩
      | insertResolution new =>
          obtain ⟨id, created, -, -, rfl⟩ := h
          exact ⟨rfl, rfl⟩
      | deleteAgreement id =>
          obtain ⟨-, rfl⟩ := h
          exact ⟨rfl, rfl⟩
      | updateAgreement id updates =>
          obtain ⟨-, rfl⟩ := h
          exact ⟨rfl, rfl⟩
      | updateByContract contractId updates =>
          obtain ⟨-, rfl⟩ := h
          exact ⟨rfl, rfl⟩
      | changeStatusByContract contractId target updates =>
          simp only [Answers] at h
          split at h
          · exact h.2 ▸ .refl db
          · exact h.2 ▸ ⟨rfl, rfl⟩
          · exact h.2 ▸ .refl db
      | _ => cases hwrites
    · exact hsame ▸ .refl db

/-- A program of such calls. -/
abbrev Sparing {α : Type} (p : AgreementProgram α) : Prop :=
  Calls.Every (fun _ _ => True) (fun c => c.sparesDisputes = true) (fun _ => True) p

section Rules

variable {α β : Type}

theorem Quiet.sparing {p : AgreementProgram α} (h : Quiet p) : Sparing p :=
  h.mono (fun _ _ h => h) (fun c hc => by simp [AgreementCall.sparesDisputes, hc]) fun _ h => h

theorem Sparing.bind {p : AgreementProgram α} {f : α → AgreementProgram β} (h : Sparing p)
    (hf : ∀ a, Sparing (f a)) : Sparing (p >>= f) :=
  Calls.every_bind.mpr (h.mono (fun _ _ h => h) (fun _ h => h) fun a _ => hf a)

/-- A quiet beginning. -/
theorem Quiet.bind_sparing {p : AgreementProgram α} {f : α → AgreementProgram β} (h : Quiet p)
    (hf : ∀ a, Sparing (f a)) : Sparing (p >>= f) := h.sparing.bind hf

theorem sparing_ask {c : AgreementCall} {f : c.reply → AgreementProgram α}
    (hc : c.sparesDisputes = true) (hf : ∀ x, Sparing (f x)) : Sparing (Calls.ask c >>= f) :=
  ⟨hc, fun x _ => hf x⟩

theorem sparing_done (a : α) : Sparing (.done a : AgreementProgram α) := trivial

theorem sparing_fail (e : HttpException) : Sparing (.fail e : AgreementProgram α) := trivial

/-- What a sparing program is followed by finds the disputes as they were. -/
theorem Sparing.ensures {p : AgreementProgram α} (h : Sparing p) {db : AgreementDb}
    {Q : Except HttpException α → AgreementDb → Prop}
    (hQ : ∀ out db', SameDisputes db db' → Q out db') : Calls.Ensures Executes p db Q :=
  Calls.Every.ensures h
    (fun _ _ _ _ hspares hI hexec => ⟨hI.trans (hexec.sameDisputes hspares), trivial⟩)
    (SameDisputes.refl db) fun out db' hsame _ => hQ out db' hsame

end Rules

/-! ## The agreements service -/

section Services

open Js (FloatArithmetic Timestamp)

theorem create_disputes {F : FloatArithmetic} {userId : String} {dto : CreateAgreementDto}
    {db : AgreementDb} : Calls.LeadsTo Executes (SameDisputes db) (create F userId dto) db := by
  refine ⟨?_⟩
  unfold create
  split
  · exact .refl db
  · refine Sparing.ensures ?_ fun _ _ h => h
    refine (assertActorWallet_quiet _ _).bind_sparing fun _ => ?_
    refine sparing_ask rfl fun reply => ?_
    split
    · exact sparing_done _
    · refine sparing_ask rfl fun participants => ?_
      split
      · exact sparing_ask rfl fun _ => sparing_fail _
      · exact (afterCreate_quiet _ _).sparing

theorem linkContract_sparing {now : Timestamp} {userId agreementId : String} {dto : LinkContractDto}
    {fetch : Fetch} : Sparing (linkContract now userId agreementId dto fetch) := by
  refine (assertCanAccessAgreement_quiet _ _).bind_sparing fun _ => ?_
  refine (assertActorWallet_quiet _ _).bind_sparing fun _ => ?_
  dsimp only
  split
  · exact sparing_done _
  · refine sparing_ask rfl fun reply => ?_
    split
    · exact sparing_done _
    · refine (logActivity_quiet _).bind_sparing fun _ => ?_
      exact (inBackground_quiet _).bind_sparing fun _ => sparing_done _

theorem updateStatus_sparing {now : Timestamp} {userId agreementId : String}
    {dto : UpdateAgreementStatusDto} : Sparing (updateStatus now userId agreementId dto) := by
  refine (assertCanAccessAgreement_quiet _ _).bind_sparing fun _ => ?_
  refine (assertActorWallet_quiet _ _).bind_sparing fun _ => ?_
  refine sparing_ask rfl fun reply => ?_
  split
  · exact sparing_done _
  · refine (ofExcept_quiet _).bind_sparing fun refused => ?_
    split
    · exact sparing_fail _
    · split
      · exact sparing_fail _
      · refine sparing_ask rfl fun written => ?_
        split
        · exact sparing_done _
        · refine (logActivity_quiet _).bind_sparing fun _ => ?_
          refine (inBackground_quiet _).bind_sparing fun _ => ?_
          exact (emitStatus_quiet _ _ _ _ _).bind_sparing fun _ => sparing_done _

theorem applyStatusChange_sparing {now : Timestamp} {agreementId wallet : String}
    {target : AgreementStatus} {enforce : Bool} {details : List (String × Js.Value)} :
    Sparing (applyStatusChange now agreementId wallet target enforce details) := by
  refine sparing_ask rfl fun reply => ?_
  split
  · exact sparing_done _
  · refine (ofExcept_quiet _).bind_sparing fun refused => ?_
    split
    · exact sparing_done _
    · refine sparing_ask rfl fun written => ?_
      split
      · exact sparing_done _
      · refine (logActivity_quiet _).bind_sparing fun _ => ?_
        exact (emitStatus_quiet _ _ _ _ _).bind_sparing fun _ => sparing_done _

theorem updateMilestone_sparing {F : FloatArithmetic} {now : Timestamp} {userId agreementId : String}
    {dto : UpdateMilestoneDto} : Sparing (updateMilestone F now userId agreementId dto) := by
  refine (assertCanAccessAgreement_quiet _ _).bind_sparing fun _ => ?_
  refine (assertActorWallet_quiet _ _).bind_sparing fun _ => ?_
  refine sparing_ask rfl fun reply => ?_
  split
  · exact sparing_done _
  · split
    · exact sparing_done _
    · refine (ofExcept_quiet _).bind_sparing fun valid => ?_
      split
      · exact sparing_fail _
      · refine sparing_ask rfl fun written => ?_
        split
        · exact sparing_done _
        · refine (logActivity_quiet _).bind_sparing fun _ => ?_
          refine (emitAll_quiet _).bind_sparing fun _ => ?_
          exact (inBackground_quiet _).bind_sparing fun _ => sparing_done _

theorem pullStatus_sparing {now : Timestamp} {agreementId contractId current : String}
    {escrow mapped : Js.Value} {actions : List String} :
    Sparing (pullStatus now agreementId contractId current escrow mapped actions) := by
  refine sparing_ask rfl fun written => ?_
  split
  · exact sparing_done _
  · dsimp only
    split
    · refine (syncParticipants_quiet _ _).bind_sparing fun _ => ?_
      exact (logSyncActivity_quiet _ _ _ _).bind_sparing fun _ => sparing_done _
    · exact (logSyncActivity_quiet _ _ _ _).bind_sparing fun _ => sparing_done _

theorem syncWith_sparing {now : Timestamp} {agreement : Agreement} {contractId : String}
    {escrow : Js.Value} : Sparing (syncWith now agreement contractId escrow) := by
  unfold syncWith
  split
  · exact sparing_fail _
  · dsimp only
    split
    · exact (logSyncActivity_quiet _ _ _ _).bind_sparing fun _ => sparing_done _
    · exact pullStatus_sparing
    · exact (logSyncActivity_quiet _ _ _ _).bind_sparing fun _ => sparing_done _

theorem doSync_sparing {now : Timestamp} {agreementId : String} {fetch : Fetch} :
    Sparing (doSync now agreementId fetch) := by
  refine sparing_ask rfl fun reply => ?_
  split
  · exact sparing_done _
  · split
    · exact sparing_done _
    · dsimp only
      split
      · exact syncWith_sparing
      · exact (logSyncActivity_quiet _ _ _ _).bind_sparing fun _ => sparing_done _

theorem correctMilestones_sparing {now : Timestamp} {agreementId : String} {fetch : Fetch} :
    Sparing (correctMilestones now agreementId fetch) := by
  refine sparing_ask rfl fun reply => ?_
  split
  · exact sparing_done _
  · split
    · exact sparing_done _
    · dsimp only
      split
      · exact sparing_done _
      · split
        · refine (ofExcept_quiet _).bind_sparing fun milestones => ?_
          refine sparing_ask rfl fun written => ?_
          exact (logReconciled_quiet _ _ _ _).bind_sparing fun _ => sparing_done _
        · exact (logReconciled_quiet _ _ _ _).bind_sparing fun _ => sparing_done _

theorem doReconcile_sparing {now : Timestamp} {agreementId : String} {first second : Fetch} :
    Sparing (doReconcile now agreementId first second) := by
  refine doSync_sparing.bind fun result => ?_
  split
  · exact sparing_done _
  · split
    · exact sparing_done _
    · exact correctMilestones_sparing.bind fun _ => sparing_done _

end Services

end ThalosBackend.Agreements

namespace ThalosBackend.Webhooks

open Js (Timestamp Value)
open Agreements

theorem writeStatus_sparing {now : Timestamp} {payload : Value} {contractId : String}
    {target : AgreementStatus} : Sparing (writeStatus now payload contractId target) := by
  refine sparing_ask rfl fun written => ?_
  split
  · exact sparing_fail _
  · refine sparing_ask rfl fun found => ?_
    split
    · exact sparing_fail _
    · exact sparing_done _
  · refine (logActivity_quiet _).bind_sparing fun _ => ?_
    exact (dispatchNotification_quiet _ _ _).sparing

theorem applyStatusUpdate_sparing {now : Timestamp} {payload : Value} {contractId : String}
    {target : AgreementStatus} : Sparing (applyStatusUpdate now payload contractId target) := by
  refine sparing_ask rfl fun found => ?_
  split
  · exact sparing_fail _
  · exact writeStatus_sparing
  · split
    · exact (logActivity_quiet _).sparing
    · exact writeStatus_sparing

theorem applyMilestoneUpdate_sparing {now : Timestamp} {payload : Value} {contractId : String} :
    Sparing (applyMilestoneUpdate now payload contractId) := by
  refine sparing_ask rfl fun found => ?_
  split
  · exact sparing_done _
  · refine (ofExcept_quiet _).bind_sparing fun edited => ?_
    split
    · exact sparing_done _
    · refine sparing_ask rfl fun written => ?_
      split
      · exact sparing_fail _
      · exact (logActivity_quiet _).sparing

theorem handleEvent_sparing {now : Timestamp} {payload : Value} :
    Sparing (handleEvent now payload) := by
  unfold handleEvent
  split
  · split
    · rename_i config _
      cases config with
      | statusUpdate target => exact applyStatusUpdate_sparing
      | milestoneUpdate => exact applyMilestoneUpdate_sparing
      | info => exact (applyInfoUpdate_quiet _ _).sparing
      | withoutAction => exact sparing_done _
      | notStored => exact sparing_fail _
    · exact sparing_done _
  · exact sparing_fail _

end ThalosBackend.Webhooks

namespace ThalosBackend.Disputes

open Js (FloatArithmetic Timestamp nonEmpty)
open Calls (ask Ensures LeadsTo)
open Wallets (Reply)
open Agreements

/-! ## Queries that may fail -/

section Executed

variable {α : Type} {db : AgreementDb} {Q : Except HttpException α → AgreementDb → Prop}

/-- A wallet that is found is the user's. -/
theorem executes_walletForUserId {userId : String} {f : Option String → AgreementProgram α}
    (h : ∀ found, (∀ w, found = some w → walletOf db userId = some w) →
      Ensures Executes (f found) db Q) :
    Ensures Executes (walletForUserId userId >>= f) db Q := by
  refine Calls.ensures_bind.mpr (Calls.ensures_ask fun x db₁ hx => ?_)
  rcases hx with ⟨wallet, ⟨rfl, rfl⟩, rfl⟩ | ⟨-, ⟨e, rfl⟩, rfl⟩
  · refine ⟨fun found hfound => h found fun w hw => ?_, fun _ he => by cases he⟩
    cases hfound
    exact hw
  · -- without an answer there is no wallet
    refine ⟨fun found hfound => h found fun w hw => ?_, fun _ he => by cases he⟩
    cases hfound
    cases hw

theorem executes_assertActorWallet {userId actorWallet : String} {f : Unit → AgreementProgram α}
    (hok : walletOf db userId = some actorWallet → Ensures Executes (f ()) db Q)
    (hrefused : ∀ e, Q (.error e) db) :
    Ensures Executes (assertActorWallet userId actorWallet >>= f) db Q := by
  refine Calls.ensures_bind.mpr (executes_walletForUserId fun found hfound => ?_)
  split
  · exact ⟨fun _ he => (by cases he), fun e _ => hrefused e⟩
  · rename_i heq
    exact ⟨fun _ _ => hok (hfound _ (not_not.mp heq)), fun _ he => by cases he⟩

/-- A dispute that is found is there. -/
theorem executes_findDispute {id : String} {f : Reply (Option Dispute) → AgreementProgram α}
    (h : ∀ x, (∀ d, Reply.data x = some d → db.disputeAt id = some d) →
      Ensures Executes (f x) db Q) :
    Ensures Executes (ask (AgreementCall.findDispute id) >>= f) db Q := by
  refine Calls.ensures_ask fun x db₁ hx => ?_
  rcases hx with ⟨rfl, rfl⟩ | ⟨-, ⟨e, rfl⟩, rfl⟩
  · refine h _ fun d hd => ?_
    rw [data_maybeSingle] at hd
    exact hd
  · exact h _ fun d hd => by cases hd

/-- The last query that writes the disputes, answered or not. -/
theorem executes_updateDispute {id : String} {updates : DisputeUpdates}
    {f : Reply Unit → AgreementProgram α} (hf : ∀ x, Sparing (f x))
    (hdone : ∀ out db', SameDisputes (db.changeDispute id updates) db' → Q out db')
    (hfailed : ∀ out db', SameDisputes db db' → Q out db') :
    Ensures Executes (ask (AgreementCall.updateDispute id updates) >>= f) db Q := by
  refine Calls.ensures_ask fun x db₁ hx => ?_
  rcases hx with ⟨-, rfl⟩ | ⟨-, -, rfl⟩
  · exact (hf x).ensures hdone
  · exact (hf x).ensures hfailed

end Executed

/-! ## Steps -/

/-- The update of `resolveDispute`. -/
def resolveUpdates (now : Timestamp) : DisputeUpdates where
  status := .resolved
  resolvedAt := some now
  updatedAt := now

/-- What an operation makes of the disputes. -/
inductive DisputesStep (F : FloatArithmetic) (o : Operation) (db db' : AgreementDb) : Prop where
  | unchanged : SameDisputes db db' → DisputesStep F o db db'
  | opened (userId : String) (dto : OpenDisputeDto) (id : String) (created : Timestamp) :
      o.request = .openDispute userId dto → (∀ d ∈ db.disputes, d.id ≠ id) →
      SameDisputes (withDispute db (dto.row.row id created)) db' → DisputesStep F o db db'
  | assigned (userId disputeId : String) (dto : AssignResolverDto) (d : Dispute) :
      o.request = .assignResolver userId disputeId dto → db.disputeAt disputeId = some d →
      d.status = .opened → SameDisputes (db.changeDispute disputeId (assignUpdates o.now dto)) db' →
      DisputesStep F o db db'
  | resolved (userId disputeId : String) (dto : ResolveDisputeDto) (d : Dispute) :
      o.request = .resolveDispute userId disputeId dto → mayResolve F db userId disputeId dto = some d →
      SameDisputes (db.changeDispute disputeId (resolveUpdates o.now)) db' → DisputesStep F o db db'
  | cancelled (userId disputeId : String) (dto : CancelDisputeDto) (d : Dispute) :
      o.request = .cancelDispute userId disputeId dto → mayCancel db userId disputeId dto = some d →
      SameDisputes (db.changeDispute disputeId (cancelUpdates o.now)) db' → DisputesStep F o db db'

section Steps

variable {F : FloatArithmetic} {now : Timestamp} {userId disputeId : String} {db db₁ : AgreementDb}

theorem sameDisputes_withDispute (h : SameDisputes db db₁) (d : Dispute) :
    SameDisputes (withDispute db d) (withDispute db₁ d) :=
  ⟨h.wallet, congrArg (· ++ [d]) h.disputes⟩

theorem sameDisputes_changeDispute (h : SameDisputes db db₁) (id : String)
    (updates : DisputeUpdates) :
    SameDisputes (db.changeDispute id updates) (db₁.changeDispute id updates) :=
  ⟨h.wallet, congrArg (Table.updateWhere _ _) h.disputes⟩

theorem openDispute_disputes {dto : OpenDisputeDto} :
    LeadsTo Executes (DisputesStep F ⟨now, .openDispute userId dto⟩ db)
      (openDispute now userId dto) db := by
  refine ⟨Calls.ensures_bind.mpr ((assertCanAccessAgreement_quiet _ _).ensures fun _ db₁ h₁ => ?_)⟩
  refine ⟨fun _ _ => ?_, fun _ _ => .unchanged h₁.sameDisputes⟩
  refine Calls.ensures_bind.mpr ((assertActorWallet_quiet _ _).ensures fun _ db₂ h₂ => ?_)
  have hsame := (h₁.trans h₂).sameDisputes
  refine ⟨fun _ _ => ?_, fun _ _ => .unchanged hsame⟩
  refine Calls.ensures_ask fun existing db₃ h₃ => ?_
  replace hsame := hsame.trans (h₃.sameDisputes rfl)
  split
  · exact .unchanged hsame
  · refine Calls.ensures_ask fun inserted db₄ hinserted => ?_
    rcases hinserted with ⟨id, created, hfresh, rfl, rfl⟩ | ⟨-, ⟨e, rfl⟩, rfl⟩
    · rw [hsame.disputes] at hfresh
      -- the row is there, whatever the agreement says to its status
      refine Sparing.ensures ?_ fun _ db' h' => .opened userId dto id created rfl hfresh
        ((sameDisputes_withDispute hsame _).trans h')
      refine applyStatusChange_sparing.bind fun result => ?_
      split
      · exact sparing_fail _
      · refine (logActivity_quiet _).bind_sparing fun _ => ?_
        exact (emit_quiet _).bind_sparing fun _ => sparing_done _
    · exact .unchanged hsame

theorem assignResolver_disputes {dto : AssignResolverDto} :
    LeadsTo Executes (DisputesStep F ⟨now, .assignResolver userId disputeId dto⟩ db)
      (assignResolver now userId disputeId dto) db := by
  refine ⟨executes_findDispute fun found hfound => ?_⟩
  split
  · exact .unchanged (.refl db)
  · rename_i d hd
    have hat := hfound d hd
    refine Calls.ensures_bind.mpr ((assertCanAccessAgreement_quiet _ _).ensures fun _ db₁ h₁ => ?_)
    have hsame := h₁.sameDisputes
    refine ⟨fun _ _ => ?_, fun _ _ => .unchanged hsame⟩
    split
    · exact .unchanged hsame
    · rename_i hstatus
      refine executes_updateDispute (fun written => ?_) (fun _ db' h' => ?_)
        fun _ _ h' => .unchanged (hsame.trans h')
      · split
        · exact sparing_done _
        · exact (logActivity_quiet _).bind_sparing fun _ => sparing_done _
      · exact .assigned userId disputeId dto d rfl hat (not_not.mp hstatus)
          ((sameDisputes_changeDispute hsame _ _).trans h')

theorem resolveDispute_disputes {dto : ResolveDisputeDto} :
    LeadsTo Executes (DisputesStep F ⟨now, .resolveDispute userId disputeId dto⟩ db)
      (resolveDispute F now userId disputeId dto) db := by
  refine ⟨executes_assertActorWallet (fun hwallet => ?_) fun e => .unchanged (.refl db)⟩
  split
  · exact .unchanged (.refl db)
  · rename_i hsum
    refine executes_findDispute fun found hfound => ?_
    split
    · exact .unchanged (.refl db)
    · rename_i d hd
      split
      · exact .unchanged (.refl db)
      · rename_i hstatus
        split
        · exact .unchanged (.refl db)
        · rename_i hresolver
          have hmay : mayResolve F db userId disputeId dto = some d := by
            rw [mayResolve, if_pos ⟨hwallet, by simpa using hsum⟩, hfound d hd]
            simpa [Option.filter, hstatus] using hresolver
          refine Calls.ensures_ask fun inserted db₁ hinserted => ?_
          have hsame : SameDisputes db db₁ := hinserted.sameDisputes rfl
          split
          · exact .unchanged hsame
          · refine executes_updateDispute (fun written => ?_) (fun _ db' h' => ?_)
              fun _ _ h' => .unchanged (hsame.trans h')
            · refine applyStatusChange_sparing.bind fun result => ?_
              split
              · exact sparing_done _
              · refine (logActivity_quiet _).bind_sparing fun _ => ?_
                exact (emit_quiet _).bind_sparing fun _ => sparing_done _
            · exact .resolved userId disputeId dto d rfl hmay
                ((sameDisputes_changeDispute hsame _ _).trans h')

theorem reactivate_sparing {agreementId : String} {dto : CancelDisputeDto} :
    Sparing (reactivate now disputeId agreementId dto) := by
  refine sparing_ask rfl fun agreement => ?_
  dsimp only
  split
  · exact sparing_fail _
  · refine applyStatusChange_sparing.bind fun result => ?_
    split
    · exact sparing_done _
    · exact (logActivity_quiet _).bind_sparing fun _ => sparing_done _

theorem cancelDispute_disputes {dto : CancelDisputeDto} :
    LeadsTo Executes (DisputesStep F ⟨now, .cancelDispute userId disputeId dto⟩ db)
      (cancelDispute now userId disputeId dto) db := by
  refine ⟨executes_assertActorWallet (fun hwallet => ?_) fun e => .unchanged (.refl db)⟩
  refine executes_findDispute fun found hfound => ?_
  split
  · exact .unchanged (.refl db)
  · rename_i d hd
    split
    · exact .unchanged (.refl db)
    · rename_i hopener
      split
      · exact .unchanged (.refl db)
      · rename_i hstatus
        have hmay : mayCancel db userId disputeId dto = some d := by
          rw [mayCancel, if_pos hwallet, hfound d hd]
          simpa [Option.filter, hstatus] using hopener
        refine executes_updateDispute (fun written => ?_) (fun _ db' h' => ?_)
          fun _ _ h' => .unchanged h'
        · split
          · exact sparing_done _
          · exact reactivate_sparing
        · exact .cancelled userId disputeId dto d rfl hmay h'

/-- **Step lemma.** Every run of an operation, failing queries included, takes the disputes such a
step. -/
theorem operation_disputes (F : FloatArithmetic) (o : Operation) (db : AgreementDb) :
    LeadsTo Executes (DisputesStep F o db) (o.program F) db := by
  have hspared : ∀ {α β : Type} {p : AgreementProgram α} (g : α → AgreementProgram β),
      Sparing p → (∀ a, Sparing (g a)) → LeadsTo Executes (DisputesStep F o db) (p >>= g) db :=
    fun g hp hg => ⟨(hp.bind hg).ensures fun _ _ h => .unchanged h⟩
  obtain ⟨now, request⟩ := o
  cases request with
  | create userId dto => exact (create_disputes.mono fun _ h => .unchanged h).wrapped _
  | linkContract userId agreementId dto fetch =>
      exact hspared _ linkContract_sparing fun _ => sparing_done _
  | updateStatus userId agreementId dto =>
      exact hspared _ updateStatus_sparing fun _ => sparing_done _
  | updateMilestone userId agreementId dto =>
      exact hspared _ updateMilestone_sparing fun _ => sparing_done _
  | openDispute userId dto => exact openDispute_disputes.wrapped _
  | assignResolver userId disputeId dto => exact assignResolver_disputes.wrapped _
  | resolveDispute userId disputeId dto => exact resolveDispute_disputes.wrapped _
  | cancelDispute userId disputeId dto => exact cancelDispute_disputes.wrapped _
  | webhook payload => exact hspared _ Webhooks.handleEvent_sparing fun _ => sparing_done _
  | sync agreementId fetch => exact hspared _ doSync_sparing fun _ => sparing_done _
  | reconcile agreementId first second =>
      exact hspared _ doReconcile_sparing fun _ => sparing_done _
  | syncStatusTransition agreementId fromStatus toStatus =>
      exact hspared _ (syncStatusTransition_quiet _ _ _ _).sparing fun _ => sparing_done _

end Steps

end ThalosBackend.Disputes
