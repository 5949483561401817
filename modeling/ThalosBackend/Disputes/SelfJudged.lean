import ThalosBackend.Agreements.AnsweringDb
import ThalosBackend.Disputes.DisputeSteps

/-!
# Self-judged disputes

A dispute is resolved by the wallet that was named as its resolver, and whoever has access to the
agreement may name one. As long as a participant who acts alone does not name the own wallet, no
dispute of the agreement is resolved; nothing in the code keeps a participant from naming it.
-/

set_option autoImplicit false

namespace ThalosBackend.Agreements

/-- The request goes to the disputes service and is about the agreement. -/
def AgreementRequest.concerns (db : AgreementDb) (agreementId : String) : AgreementRequest → Bool
  | .openDispute _ dto => dto.agreementId = agreementId
  | .assignResolver _ disputeId _ | .resolveDispute _ disputeId _ | .cancelDispute _ disputeId _ =>
    db.disputes.any fun d => d.id = disputeId && d.agreementId = agreementId
  | _ => false

/-- Who sends a request to the disputes service. -/
def AgreementRequest.disputeUser : AgreementRequest → Option String
  | .openDispute userId _ | .assignResolver userId _ _ | .resolveDispute userId _ _
  | .cancelDispute userId _ _ => some userId
  | _ => none

end ThalosBackend.Agreements

namespace ThalosBackend.Disputes

open Js (FloatArithmetic nonEmpty)
open Agreements

/-- Nobody but the user has the disputes service deal with the agreement. -/
def actsAlone (userId agreementId : String) (db : AgreementDb) (o : Operation) : Bool :=
  !o.request.concerns db agreementId || o.request.disputeUser = some userId

/-- No dispute of the agreement gets the user's wallet as its resolver. -/
def namesAnother (userId agreementId : String) (db : AgreementDb) (o : Operation) : Bool :=
  !o.request.concerns db agreementId || match o.request with
    | .assignResolver _ _ dto => walletOf db userId ≠ some dto.resolverWallet
    | _ => true

/-- The user may not judge any dispute of the agreement, and none has been resolved since. -/
structure Unjudged (userId agreementId : String) (db₀ db : AgreementDb) : Prop where
  wallet : walletOf db userId = walletOf db₀ userId
  settled : ∀ d ∈ db.disputes, d.agreementId = agreementId → d.status = .resolved → d ∈ db₀.disputes
  resolver : ∀ d ∈ db.disputes, d.agreementId = agreementId → d.status ≠ .resolved →
    ∀ w, walletOf db userId = some w → d.resolverWallet ≠ some w

section Steps

variable {F : FloatArithmetic} {userId agreementId : String} {db₀ db db' : AgreementDb}

theorem walletOf_congr (h : SameDisputes db db') (userId : String) :
    walletOf db' userId = walletOf db userId := by
  rw [walletOf, walletOf, h.wallet]

/-- A request on a dispute of the agreement is about the agreement. -/
theorem concerns_of_disputeAt {disputeId : String} {d : Dispute}
    (hat : db.disputeAt disputeId = some d) (hagreement : d.agreementId = agreementId) :
    (db.disputes.any fun d => d.id = disputeId && d.agreementId = agreementId) = true := by
  obtain ⟨hmem, hid⟩ := id_of_disputeAt hat
  exact List.any_eq_true.mpr ⟨d, hmem, by simp [hid, hagreement]⟩

namespace Unjudged

/-- The same disputes. -/
theorem unchanged (h : Unjudged userId agreementId db₀ db) (hsame : SameDisputes db db') :
    Unjudged userId agreementId db₀ db' := by
  have hwallet := walletOf_congr hsame userId
  refine ⟨hwallet.trans h.wallet, ?_, ?_⟩
  · rw [hsame.disputes]
    exact h.settled
  · rw [hsame.disputes, hwallet]
    exact h.resolver

/-- One dispute changes: if it is one of the agreement, it is not resolved before or after, and its
resolver is not the user. -/
theorem changed (h : Unjudged userId agreementId db₀ db) {disputeId : String} {d : Dispute}
    {updates : DisputeUpdates} (hat : db.disputeAt disputeId = some d)
    (hsame : SameDisputes (db.changeDispute disputeId updates) db')
    (hopen : d.agreementId = agreementId → updates.status ≠ .resolved ∧
      ∀ w, walletOf db userId = some w → (d.apply updates).resolverWallet ≠ some w) :
    Unjudged userId agreementId db₀ db' := by
  have hwallet : walletOf db' userId = walletOf db userId := walletOf_congr hsame userId
  have hrow : ∀ e ∈ db'.disputes, e ∈ db.disputes ∨ e = d.apply updates := by
    intro e he
    rw [hsame.disputes] at he
    obtain ⟨old, hold, rfl⟩ := Table.mem_updateWhere.mp he
    by_cases hid : old.id = disputeId
    · rw [if_pos (by simpa using hid), eq_of_disputeAt hat hold hid]
      exact .inr rfl
    · rw [if_neg (by simpa using hid)]
      exact .inl hold
  refine ⟨hwallet.trans h.wallet, fun e he hagreement hresolved => ?_,
    fun e he hagreement hstatus => ?_⟩
  · rcases hrow e he with he | rfl
    · exact h.settled e he hagreement hresolved
    · exact absurd hresolved (hopen hagreement).1
  · rw [hwallet]
    rcases hrow e he with he | rfl
    · exact h.resolver e he hagreement hstatus
    · exact (hopen hagreement).2

/-- **Step lemma.** -/
theorem step (h : Unjudged userId agreementId db₀ db) {o : Operation}
    (halone : actsAlone userId agreementId db o = true)
    (hother : namesAnother userId agreementId db o = true) (hstep : DisputesStep F o db db') :
    Unjudged userId agreementId db₀ db' := by
  obtain ⟨now, request⟩ := o
  cases hstep with
  | unchanged hsame => exact h.unchanged hsame
  | opened u dto id created hrequest hfresh hsame =>
      -- a new dispute is open and has no resolver
      have hwallet : walletOf db' userId = walletOf db userId := walletOf_congr hsame userId
      have hrow : ∀ e ∈ db'.disputes, e ∈ db.disputes ∨ e = dto.row.row id created := by
        intro e he
        rw [hsame.disputes] at he
        simpa using List.mem_append.mp he
      refine ⟨hwallet.trans h.wallet, fun e he hagreement hresolved => ?_,
        fun e he hagreement hstatus => ?_⟩
      · rcases hrow e he with he | rfl
        · exact h.settled e he hagreement hresolved
        · cases hresolved
      · rw [hwallet]
        rcases hrow e he with he | rfl
        · exact h.resolver e he hagreement hstatus
        · intro w _ hnone
          cases hnone
  | assigned u disputeId dto d hrequest hat hstatus hsame =>
      obtain rfl : request = .assignResolver u disputeId dto := hrequest
      refine h.changed hat hsame fun hagreement => ⟨nofun, fun w hw hresolver => ?_⟩
      -- the user names somebody else
      simp only [namesAnother, AgreementRequest.concerns, concerns_of_disputeAt hat hagreement,
        Bool.not_true, Bool.false_or, decide_eq_true_eq] at hother
      obtain rfl : dto.resolverWallet = w := Option.some.inj hresolver
      exact hother hw
  | resolved u disputeId dto d hrequest hmay hsame =>
      obtain rfl : request = .resolveDispute u disputeId dto := hrequest
      obtain ⟨hat, hresolved⟩ := mayResolve_eq_some hmay
      refine h.changed hat hsame fun hagreement => ?_
      -- only the user asks, and the user is not the resolver
      simp only [actsAlone, AgreementRequest.concerns, concerns_of_disputeAt hat hagreement,
        AgreementRequest.disputeUser, Bool.not_true, Bool.false_or, decide_eq_true_eq,
        Option.some.injEq] at halone
      subst halone
      obtain ⟨hwallet, hresolver⟩ := resolver_of_mayResolve hmay
      exact absurd hresolver (h.resolver d (id_of_disputeAt hat).1 hagreement hresolved _ hwallet)
  | cancelled u disputeId dto d hrequest hmay hsame =>
      obtain ⟨hat, hresolved⟩ := mayCancel_eq_some hmay
      refine h.changed hat hsame fun hagreement => ⟨nofun, ?_⟩
      exact h.resolver d (id_of_disputeAt hat).1 hagreement hresolved

end Unjudged

end Steps

/-! ## Runs -/

/-- **No self-judged dispute.** From a store in which no unresolved dispute of the agreement has the
user's wallet as its resolver, the user alone gets no dispute of the agreement resolved, whatever
happens besides, as long as the user names somebody else. -/
theorem no_self_judged (F : FloatArithmetic) (userId agreementId : String) (db₀ db : AgreementDb)
    (hresolver : ∀ d ∈ db₀.disputes, d.agreementId = agreementId → d.status ≠ .resolved →
      ∀ w, walletOf db₀ userId = some w → d.resolverWallet ≠ some w)
    (hrun : ((agreementSystem F).restrict fun db o => (actsAlone userId agreementId db o &&
      namesAnother userId agreementId db o) = true).Leads db₀ db) :
    ∀ d ∈ db.disputes, d.agreementId = agreementId → d.status = .resolved → d ∈ db₀.disputes := by
  have hstart : Unjudged userId agreementId db₀ db₀ := ⟨rfl, fun _ hd _ _ => hd, hresolver⟩
  have hend : Unjudged userId agreementId db₀ db := by
    refine StepSystem.Leads.keeps ?_ hrun hstart
    rintro s o s' hs ⟨hguard, out, hexec⟩
    obtain ⟨halone, hother⟩ := Bool.and_eq_true_iff.mp hguard
    exact hs.step halone hother ((operation_disputes F o s).of_runs hexec)
  exact hend.settled

/-- An active agreement of a payer and a payee. -/
def activeStore : AgreementDb :=
  runAll exactArithmetic
    [createOperation "10" none splitTen, ⟨1, .updateStatus "payer" "i" ⟨.funded, "P"⟩⟩,
      ⟨2, .updateStatus "payer" "i" ⟨.active, "P"⟩⟩] newStore

/-- The payer opens a dispute and leaves it to the payee. -/
def handedOver : List Operation :=
  [⟨3, .openDispute "payer" ⟨"i", "P", "late", none⟩⟩, ⟨4, .assignResolver "payer" "i" ⟨"Q"⟩⟩]

theorem handedOver_unjudged :
    (runAll exactArithmetic handedOver activeStore).disputes.map Dispute.status = [.underReview] ∧
    ∀ d ∈ (runAll exactArithmetic handedOver activeStore).disputes, d.agreementId = "i" →
      d.status = .resolved → d ∈ activeStore.disputes :=
  ⟨by decide +kernel, no_self_judged exactArithmetic "payer" "i" activeStore _ (by decide +kernel)
    (leads_runAll (by decide +kernel))⟩

/-- The agreement is active, and the user is one of its two parties. -/
abbrev IsParty (db : AgreementDb) (agreementId userId : String) : Prop :=
  ((db.agreementAt agreementId).any fun a => a.status = some "active") = true ∧
    ∃ p ∈ db.participants, ∃ q ∈ db.participants,
      p.agreementId = agreementId ∧ p.role = "payer" ∧ q.agreementId = agreementId ∧
        q.role = "payee" ∧ p.walletAddress ≠ q.walletAddress ∧
          walletOf db userId ∈ [some p.walletAddress, some q.walletAddress]

/-- The payer opens a dispute, judges it, and gets everything. -/
def judgedAlone : List Operation :=
  [⟨3, .openDispute "payer" ⟨"i", "P", "late", none⟩⟩, ⟨4, .assignResolver "payer" "i" ⟨"P"⟩⟩,
    ⟨5, .resolveDispute "payer" "i" ⟨"P", .finite 100, .finite 0, none⟩⟩]

theorem not_no_self_judged : ¬ ∀ userId agreementId db₀ db,
    (agreementSystem exactArithmetic).Reachable db₀ → IsParty db₀ agreementId userId →
    ((agreementSystem exactArithmetic).restrict fun db o =>
      actsAlone userId agreementId db o = true).Leads db₀ db →
    ∀ d ∈ db.disputes, d.agreementId = agreementId → d.status = .resolved → d ∈ db₀.disputes := by
  intro h
  have hjudged : ∃ d ∈ (runAll exactArithmetic judgedAlone activeStore).disputes,
      d.agreementId = "i" ∧ d.status = .resolved ∧ d ∉ activeStore.disputes := by decide +kernel
  obtain ⟨d, hd, hagreement, hresolved, hnew⟩ := hjudged
  have hreachable : (agreementSystem exactArithmetic).Reachable activeStore :=
    reachable_runAll (.init isNew_newStore)
  exact hnew (h "payer" "i" _ _ hreachable (by decide +kernel) (leads_runAll (by decide +kernel)) d
    hd hagreement hresolved)

end ThalosBackend.Disputes
