import ThalosBackend.Agreements.Mediation

/-!
# Outsiders do not interfere

What is stored about one agreement: its row, its participants, its log, its disputes and their
resolutions, and what has left the services about it. Requests of users who have no part in it,
webhooks about other contracts and syncs of other agreements leave all of it as it is, whatever they
ask for and however they interleave.

This is more than that an outsider is refused: between the check of a request and its write, no other
request of an outsider can make the check worthless.
-/

set_option autoImplicit false

namespace ThalosBackend.Agreements

open Js (FloatArithmetic Value nonEmpty)
open Calls (Attests Follows Held)
open Disputes (walletOf)

/-! ## What is stored about an agreement -/

/-- Everything about one agreement. -/
structure AgreementView where
  rows : List Agreement
  participants : List Participant
  activity : List Activity
  disputes : List Dispute
  resolutions : List DisputeResolution
  events : List AgreementEvent
  background : List BackgroundWork

/-- The disputes about an agreement. -/
def AgreementDb.disputesOf (db : AgreementDb) (agreementId : String) : List Dispute :=
  db.disputes.filter fun d => d.agreementId = agreementId

/-- What the store holds about an agreement. -/
def AgreementDb.view (db : AgreementDb) (agreementId : String) : AgreementView where
  rows := db.agreements.filter fun a => a.id = agreementId
  participants := db.participants.filter fun p => p.agreementId = agreementId
  activity := db.activity.filter fun row => row.agreementId = agreementId
  disputes := db.disputesOf agreementId
  resolutions := db.resolutions.filter fun r =>
    (db.disputesOf agreementId).any fun d => d.id = r.disputeId
  events := db.events.filter fun event => event.agreementId = agreementId
  background := db.background.filter fun work => work.agreementId = agreementId

/-! ## Who is kept out -/

/-- No wallet of the user admits them to the agreement, and none has opened one of its disputes or is
to judge one. -/
structure IsOutsider (db : AgreementDb) (userId agreementId : String) : Prop where
  notAdmitted : ∀ a ∈ db.agreements, a.id = agreementId → ∀ w ∈ ownWallets db userId,
    admitsThrough db userId a w = false
  noDispute : ∀ d ∈ db.disputesOf agreementId, ∀ w ∈ ownWallets db userId,
    d.openedBy ≠ w ∧ nonEmpty d.resolverWallet ≠ some w

/-- The user who makes a request. -/
def AgreementRequest.userId : AgreementRequest → Option String
  | .create userId _ | .linkContract userId _ _ _ | .updateStatus userId _ _
  | .updateMilestone userId _ _ | .openDispute userId _ | .assignResolver userId _ _
  | .resolveDispute userId _ _ | .cancelDispute userId _ _ => some userId
  | .webhook _ | .sync _ _ | .reconcile _ _ _ | .syncStatusTransition _ _ _ => none

/-- The agreement that a sync names. -/
def AgreementRequest.syncs : AgreementRequest → Option String
  | .sync id _ | .reconcile id _ _ | .syncStatusTransition id _ _ => some id
  | _ => none

/-- The request has nothing to do with the agreement. -/
structure KeptOut (db : AgreementDb) (agreementId : String) (req : AgreementRequest) : Prop where
  user : ∀ userId, req.userId = some userId → IsOutsider db userId agreementId
  webhook : ∀ payload contractId, req = .webhook payload →
    (payload.field "contractId").toText = some contractId →
      ∀ a ∈ db.agreements, a.id = agreementId → a.contractId ≠ some contractId
  sync : req.syncs ≠ some agreementId

/-! ## Rights do not appear -/

section Rights

variable {db₀ db : AgreementDb} {agreementId : String} {a₀ : Agreement} {history : QueryHistory}
  {req : AgreementRequest} {wallet : String}

/-- The wallets, and everything about the agreement, are as they were. -/
structure SameView (db₀ : AgreementDb) (agreementId : String) (db : AgreementDb) : Prop where
  wallet : db.wallet = db₀.wallet
  view : db.view agreementId = db₀.view agreementId

theorem ownWallets_congr (h : db.wallet = db₀.wallet) (userId : String) :
    ownWallets db userId = ownWallets db₀ userId := by
  simp only [ownWallets, h]

theorem mem_ownWallets_of_walletOf {userId w : String} (h : walletOf db userId = some w) :
    w ∈ ownWallets db userId :=
  mem_ownWallets.mpr (.inr h)

namespace SameView

variable (h : SameView db₀ agreementId db)

include h

theorem rows_iff {a : Agreement} (hid : a.id = agreementId) :
    a ∈ db.agreements ↔ a ∈ db₀.agreements := by
  have hrows : db.agreements.filter (fun a => a.id = agreementId) =
      db₀.agreements.filter fun a => a.id = agreementId := congrArg AgreementView.rows h.view
  have hmem := congrArg (a ∈ ·) hrows
  simpa [hid] using hmem

theorem participants_iff {p : Participant} (hid : p.agreementId = agreementId) :
    p ∈ db.participants ↔ p ∈ db₀.participants := by
  have hrows : db.participants.filter (fun p => p.agreementId = agreementId) =
      db₀.participants.filter fun p => p.agreementId = agreementId :=
    congrArg AgreementView.participants h.view
  have hmem := congrArg (p ∈ ·) hrows
  simpa [hid] using hmem

theorem disputesOf_eq : db.disputesOf agreementId = db₀.disputesOf agreementId :=
  congrArg AgreementView.disputes h.view

theorem admitsThrough_eq {a : Agreement} (hid : a.id = agreementId) (userId w : String) :
    admitsThrough db userId a w = admitsThrough db₀ userId a w := by
  have hparticipants : (∃ p ∈ db.participants, p.agreementId = a.id ∧ p.walletAddress = w) ↔
      ∃ p ∈ db₀.participants, p.agreementId = a.id ∧ p.walletAddress = w := by
    constructor
    · rintro ⟨p, hp, hpid, hw⟩
      exact ⟨p, (h.participants_iff (hpid.trans hid)).mp hp, hpid, hw⟩
    · rintro ⟨p, hp, hpid, hw⟩
      exact ⟨p, (h.participants_iff (hpid.trans hid)).mpr hp, hpid, hw⟩
  simp only [admitsThrough, hparticipants]

/-- Whoever was no party to the agreement is not admitted to it. -/
theorem not_admits {userId : String} (hout : IsOutsider db₀ userId agreementId)
    (ha₀ : a₀ ∈ db₀.agreements) (hid : a₀.id = agreementId) {wallets : List String}
    (hwallets : ∀ w ∈ wallets, w ∈ ownWallets db userId) :
    ¬ Admits db userId agreementId wallets := by
  intro hadmits
  obtain ⟨w, hw, hthrough⟩ := hadmits a₀ ((h.rows_iff hid).mpr ha₀) hid
  have hown : w ∈ ownWallets db₀ userId := by
    rw [← ownWallets_congr h.wallet]
    exact hwallets w hw
  rw [h.admitsThrough_eq hid, hout.notAdmitted a₀ ha₀ hid w hown] at hthrough
  cases hthrough

end SameView

/-- What outsiders can be told of the agreement: a row of it comes under its contract id, and a dispute
of it is one there was. -/
def FarFrom (db₀ : AgreementDb) (a₀ : Agreement) : (c : AgreementCall) → c.reply → Prop
  | .findByContract contractId, .ok (some a) => a.id = a₀.id → a₀.contractId = some contractId
  | .changeStatusByContract contractId _ _, .ok (some a) =>
      a.id = a₀.id → a₀.contractId = some contractId
  | .findDispute _, .ok (some d) => d.agreementId = a₀.id → d ∈ db₀.disputesOf a₀.id
  | _, _ => True

/-- **Step lemma.** A request that is kept out gets no right on the agreement. -/
theorem not_mayAct (h : SameView db₀ a₀.id db) (ha₀ : a₀ ∈ db₀.agreements)
    (hkept : KeptOut db₀ a₀.id req) (hheld : Held Tells history db)
    (hfar : ∀ e ∈ history, FarFrom db₀ a₀ e.1 e.2) :
    ¬ MayAct db history req a₀.id wallet := by
  intro hmay
  -- who acts by the wallet of the profile owns it
  have hkeys : ∀ userId, ∀ w ∈ (walletOf db userId).toList, w ∈ ownWallets db userId :=
    fun userId w hw => mem_ownWallets_of_walletOf (Option.mem_toList.mp hw)
  have hwrite : ∀ userId, req.userId = some userId → ¬ MayWrite db userId a₀.id wallet :=
    fun userId huser hwrite => h.not_admits (hkept.user userId huser) ha₀ rfl
      (fun _ hw => hw) hwrite.2
  cases req with
  | create userId dto => exact hwrite userId rfl hmay.2.1
  | linkContract userId id dto fetch => exact hwrite userId rfl hmay.2.2
  | updateStatus userId id dto => exact hwrite userId rfl hmay.2.2
  | updateMilestone userId id dto => exact hwrite userId rfl hmay.2.2
  | openDispute userId dto =>
      refine h.not_admits (hkept.user userId rfl) ha₀ rfl ?_ hmay.2.2.2
      intro w hw
      rw [List.mem_singleton.mp hw]
      exact mem_ownWallets_of_walletOf hmay.2.2.1
  | assignResolver userId disputeId dto =>
      exact h.not_admits (hkept.user userId rfl) ha₀ rfl (hkeys userId) hmay.2.2
  | resolveDispute userId disputeId dto =>
      obtain ⟨-, hkey, ⟨⟨d', hd', hid'⟩, habout⟩, d, hd, hresolver⟩ := hmay
      -- the dispute that was read is the one about the agreement
      have htold : (∃ d' ∈ db.disputes, d'.id = disputeId) ∧ ∀ d' ∈ db.disputes, d'.id = disputeId →
        d'.agreementId = d.agreementId ∧ d'.openedBy = d.openedBy := hheld _ hd
      have hagreement : d.agreementId = a₀.id :=
        (htold.2 d' hd' hid').1.symm.trans (habout d' hd' hid')
      have hthere : d ∈ db₀.disputesOf a₀.id := hfar _ hd hagreement
      have hown := mem_ownWallets_of_walletOf hkey
      rw [ownWallets_congr h.wallet] at hown
      exact ((hkept.user userId rfl).noDispute d hthere wallet hown).2 hresolver
  | cancelDispute userId disputeId dto =>
      obtain ⟨-, hkey, ⟨⟨d, hd, hid⟩, habout⟩, hopener⟩ := hmay
      have hthere : d ∈ db₀.disputesOf a₀.id := by
        rw [← h.disputesOf_eq]
        exact List.mem_filter.mpr ⟨hd, by simpa using habout d hd hid⟩
      have hown := mem_ownWallets_of_walletOf hkey
      rw [ownWallets_congr h.wallet] at hown
      exact ((hkept.user userId rfl).noDispute d hthere wallet hown).1 (hopener d hd hid)
  | webhook payload =>
      obtain ⟨-, contractId, a, hcontract, hid, hfound⟩ := hmay
      have hcontract₀ : a₀.contractId = some contractId := by
        rcases hfound with hfound | ⟨target, updates, hfound⟩
        · exact hfar _ hfound hid
        · exact hfar _ hfound hid
      exact hkept.webhook payload contractId rfl hcontract a₀ ha₀ rfl hcontract₀
  | sync id fetch => exact hkept.sync (congrArg some hmay.1.symm)
  | reconcile id first second => exact hkept.sync (congrArg some hmay.1.symm)
  | syncStatusTransition id source target => exact hkept.sync (congrArg some hmay.1.symm)

/-- A permitted query of a request that is kept out writes nothing about the agreement. -/
theorem view_of_permits {c : AgreementCall} {x : c.reply} {db' : AgreementDb}
    (h : SameView db₀ a₀.id db) (ha₀ : a₀ ∈ db₀.agreements) (hkept : KeptOut db₀ a₀.id req)
    (hheld : Held Tells history db) (hfar : ∀ e ∈ history, FarFrom db₀ a₀ e.1 e.2)
    (hpermits : Permits db history req c) (hx : Answers c db x db') :
    db'.view a₀.id = db.view a₀.id := by
  -- whatever the request may act on is another agreement
  have hother : ∀ id, (∃ wallet, MayAct db history req id wallet) → id ≠ a₀.id := by
    rintro id ⟨wallet, hmay⟩ rfl
    exact not_mayAct h ha₀ hkept hheld hfar hmay
  have hrow : a₀ ∈ db.agreements := (h.rows_iff rfl).mpr ha₀
  have hcontract : ∀ contractId, (∃ payload, req = .webhook payload ∧
      (payload.field "contractId").toText = some contractId) →
      ∀ a ∈ db.agreements, a.id = a₀.id → a.contractId ≠ some contractId := by
    rintro contractId ⟨payload, hreq, htext⟩ a ha hid
    exact hkept.webhook payload contractId hreq htext a ((h.rows_iff hid).mp ha) hid
  -- rows of others can be rewritten
  have hupdate : ∀ (p : Agreement → Bool) (updates : AgreementUpdates),
      (∀ a ∈ db.agreements, p a = true → a.id ≠ a₀.id) →
        (db.updateAgreements p updates).view a₀.id = db.view a₀.id := by
    intro p updates hp
    have hrows : (Table.updateWhere p (Agreement.apply updates) db.agreements).filter
        (fun a => a.id = a₀.id) = db.agreements.filter fun a => a.id = a₀.id := by
      apply Table.filter_updateWhere_eq
      intro a ha hpa
      have hne := hp a ha hpa
      simp [hne]
    simp only [AgreementDb.view, AgreementDb.updateAgreements, AgreementDb.disputesOf, hrows]
  cases c with
  | wallet c' =>
      obtain ⟨wallet, -, rfl⟩ := hx
      rfl
  | insertAgreement new =>
      obtain ⟨id, created, hfree, -, rfl⟩ := hx
      have hne : id ≠ a₀.id := fun heq => hfree a₀ hrow heq.symm
      simp [AgreementDb.view, AgreementDb.disputesOf, NewAgreement.row, hne]
  | deleteAgreement id =>
      obtain ⟨-, rfl⟩ := hx
      have hne := hother id hpermits.2
      have hrows : (db.agreements.filter fun a => a.id ≠ id).filter (fun a => a.id = a₀.id) =
          db.agreements.filter fun a => a.id = a₀.id := by
        rw [List.filter_filter]
        apply List.filter_congr
        intro a _
        by_cases hid : a.id = a₀.id
        · simp [hid, hne.symm]
        · simp [hid]
      simp only [AgreementDb.view, AgreementDb.disputesOf, hrows]
  | updateAgreement id updates =>
      obtain ⟨-, rfl⟩ := hx
      apply hupdate
      intro a _ hid
      rw [of_decide_eq_true hid]
      exact hother id hpermits
  | updateByContract contractId updates =>
      obtain ⟨-, rfl⟩ := hx
      apply hupdate
      intro a ha hcontractId hid
      exact hcontract contractId hpermits a ha hid (of_decide_eq_true hcontractId)
  | changeStatusByContract contractId target updates =>
      simp only [Answers] at hx
      split at hx
      · exact hx.2 ▸ rfl
      · rw [hx.2]
        apply hupdate
        intro a ha hmatches hid
        exact hcontract contractId hpermits a ha hid (of_decide_eq_true hmatches).1
      · exact hx.2 ▸ rfl
  | insertParticipants rows =>
      obtain ⟨-, rfl⟩ := hx
      have hnone : rows.filter (fun p => p.agreementId = a₀.id) = [] := by
        rw [List.filter_eq_nil_iff]
        intro p hp
        simpa using hother _ (hpermits p hp)
      simp [AgreementDb.view, AgreementDb.disputesOf, hnone]
  | insertActivity row =>
      obtain ⟨-, rfl⟩ := hx
      simp [AgreementDb.view, AgreementDb.disputesOf, hother _ ⟨_, hpermits⟩]
  | insertDispute new =>
      obtain ⟨id, created, hfree, -, rfl⟩ := hx
      have hne : new.agreementId ≠ a₀.id := hother _ ⟨_, hpermits⟩
      simp [AgreementDb.view, AgreementDb.disputesOf, NewDispute.row, hne]
  | updateDispute id updates =>
      obtain ⟨-, rfl⟩ := hx
      obtain ⟨-, agreementId, wallet, habout, hmay⟩ := hpermits
      have hdisputes : (Table.updateWhere (fun d => d.id = id) (Dispute.apply updates)
          db.disputes).filter (fun d => d.agreementId = a₀.id) =
            db.disputes.filter fun d => d.agreementId = a₀.id := by
        apply Table.filter_updateWhere_eq
        intro d hd hid
        have hne : d.agreementId ≠ a₀.id := by
          rw [habout.2 d hd (of_decide_eq_true hid)]
          exact hother _ ⟨wallet, hmay⟩
        simp [hne]
      simp only [AgreementDb.view, AgreementDb.disputesOf, hdisputes]
  | insertResolution new =>
      obtain ⟨id, created, -, -, rfl⟩ := hx
      obtain ⟨-, agreementId, habout, hmay⟩ := hpermits
      have hnone : ((db.disputesOf a₀.id).any fun d => d.id = new.disputeId) = false := by
        rw [List.any_eq_false]
        intro d hd hid
        obtain ⟨hd, habout₀⟩ := List.mem_filter.mp hd
        refine hother agreementId ⟨_, hmay⟩ ?_
        rw [← habout.2 d hd (of_decide_eq_true hid)]
        exact of_decide_eq_true habout₀
      have hrows : [new.row id created].filter (fun r =>
          (db.disputesOf a₀.id).any fun d => d.id = r.disputeId) = [] := by
        rw [List.filter_eq_nil_iff]
        intro r hr
        rw [List.mem_singleton.mp hr]
        exact Bool.eq_false_iff.mp hnone
      have hall : (db.resolutions ++ [new.row id created]).filter (fun r =>
          (db.disputesOf a₀.id).any fun d => d.id = r.disputeId) = db.resolutions.filter fun r =>
            (db.disputesOf a₀.id).any fun d => d.id = r.disputeId := by
        rw [List.filter_append, hrows, List.append_nil]
      exact congrArg (fun resolutions => { db.view a₀.id with resolutions }) hall
  | emit event =>
      obtain ⟨-, rfl⟩ := hx
      simp [AgreementDb.view, AgreementDb.disputesOf, hother _ hpermits]
  | background work =>
      obtain ⟨-, rfl⟩ := hx
      simp [AgreementDb.view, AgreementDb.disputesOf, hother _ hpermits]
  | _ => exact hx.2 ▸ rfl

/-- A reply that others can be told stays away from the agreement. -/
theorem Executes.farFrom {c : AgreementCall} {x : c.reply} {db' : AgreementDb}
    (h : SameView db₀ a₀.id db) (hsole : db₀.agreements.filter (fun a => a.id = a₀.id) = [a₀])
    (hx : Executes c db x db') : FarFrom db₀ a₀ c x := by
  -- the row of the agreement is still the one of the start
  have hone : ∀ a ∈ db.agreements, a.id = a₀.id → a = a₀ := by
    intro a ha hid
    exact eq_of_filter_eq_singleton hsole ((h.rows_iff hid).mp ha) (by simpa using hid)
  rcases hx with hx | ⟨-, ⟨e, rfl⟩, -⟩
  · cases c with
    | findByContract contractId =>
        obtain ⟨hx, rfl⟩ := hx
        rcases x with e | ⟨_ | a⟩
        · trivial
        · trivial
        · intro hid
          have hmem : a ∈ db'.byContract contractId := by
            rw [maybeSingle_eq_ok hx.symm]
            exact List.mem_singleton_self a
          obtain ⟨ha, hcontract⟩ := List.mem_filter.mp hmem
          rw [hone a ha hid] at hcontract
          exact of_decide_eq_true hcontract
    | changeStatusByContract contractId target updates =>
        simp only [Answers] at hx
        split at hx
        · rw [hx.1]
          trivial
        · rename_i a hrows
          rw [hx.1]
          intro hid
          have hmem : a ∈ db.agreements.filter (matchesStatusUpdate contractId target) := by
            rw [hrows]
            exact List.mem_singleton_self a
          obtain ⟨ha, hmatches⟩ := List.mem_filter.mp hmem
          rw [hone a ha hid] at hmatches
          exact (of_decide_eq_true hmatches).1
        · rw [hx.1]
          trivial
    | findDispute id =>
        obtain ⟨hx, rfl⟩ := hx
        rcases x with e | ⟨_ | d⟩
        · trivial
        · trivial
        · intro hagreement
          have hmem : d ∈ db'.disputes.filter fun d => d.id = id := by
            rw [maybeSingle_eq_ok hx.symm]
            exact List.mem_singleton_self d
          rw [← h.disputesOf_eq]
          exact List.mem_filter.mpr ⟨(List.mem_filter.mp hmem).1, by simpa using hagreement⟩
    | wallet c' => trivial
    | _ => trivial
  · cases c with
    | wallet c' => trivial
    | _ => trivial

end Rights

/-! ## Every run of outsiders -/

section Runs

variable {F : FloatArithmetic} {T : Traffic} {c c' : AgreementConfig T} {l : AgreementLabel T}
  {db₀ : AgreementDb} {a₀ : Agreement}

/-- What every run of requests that are kept out keeps. -/
structure OutsideInv (db₀ : AgreementDb) (a₀ : Agreement) (c : AgreementConfig T) : Prop where
  mediated : MediationInv c
  same : SameView db₀ a₀.id c.shared.db
  far : Disciplined (FarFrom db₀ a₀) (fun _ _ history => ∀ e ∈ history, FarFrom db₀ a₀ e.1 e.2)
    (fun _ _ _ => True) c

/-- A program of any kind only gets the replies it gets. -/
theorem follows_farFrom {α : Type} (p : AgreementProgram α) {history : QueryHistory}
    (hhistory : ∀ e ∈ history, FarFrom db₀ a₀ e.1 e.2) :
    Follows (FarFrom db₀ a₀) (fun _ history => ∀ e ∈ history, FarFrom db₀ a₀ e.1 e.2)
      (fun _ _ => True) p history := by
  induction p generalizing history with
  | done a => exact Calls.follows_done trivial
  | fail e => exact Calls.follows_fail e
  | call c next ih =>
      refine Calls.follows_call.mpr ⟨hhistory, fun x hx => ?_⟩
      apply ih x
      exact List.forall_mem_cons.mpr ⟨hx, hhistory⟩

theorem OutsideInv.step (h : OutsideInv db₀ a₀ c)
    (hsole : db₀.agreements.filter (fun a => a.id = a₀.id) = [a₀])
    (hkept : ∀ r, T.serves r = true → KeptOut db₀ a₀.id r)
    (hstep : (freshSystem F T).step c l c') : OutsideInv db₀ a₀ c' := by
  have ha₀ : a₀ ∈ db₀.agreements := by
    have hmem := List.mem_singleton_self a₀
    rw [← hsole] at hmem
    exact (List.mem_filter.mp hmem).1
  refine ⟨h.mediated.step hstep, ?_, ?_⟩
  · cases Calls.step_cases hstep.1 with
    | start t req hfree => exact h.same
    | act t act req call cont x s hk hexec =>
        -- the query was permitted by the rules, which keep the request away from the agreement
        have hpermits := h.mediated.permits hk
        have hsame : s.db.wallet = c.shared.db.wallet :=
          (hexec.1.executes.continues (keepsWallets_of_permits hpermits)).wallet
        refine ⟨hsame.trans h.same.wallet, ?_⟩
        rcases hexec.1.executes with hx | ⟨-, -, hdb⟩
        · have hview := view_of_permits h.same ha₀ (hkept _ req.isServed)
            (h.mediated.recalling.held t _ hk) (h.far.next hk).1 hpermits hx
          exact hview.trans h.same.view
        · rw [hdb]
          exact h.same.view
    | env b => exact nomatch b
  · refine h.far.step (fun o _ => follows_farFrom _ (List.forall_mem_nil _)) ?_ hstep.1
    intro act call x db' hx
    exact hx.executes.farFrom h.same hsole

/-- **Outsiders do not interfere.** Whatever users without a part in an agreement ask for, and
whichever webhooks of other contracts and syncs of other agreements come, in whatever order their
queries run, everything stored about the agreement stays as it was. -/
theorem outsiders_do_not_interfere
    (hsole : db₀.agreements.filter (fun a => a.id = a₀.id) = [a₀])
    (hstart : ∀ db, T.startsFrom db → db = db₀)
    (hkept : ∀ r, T.serves r = true → KeptOut db₀ a₀.id r)
    (h : (freshSystem F T).Reachable c) : c.shared.db.view a₀.id = db₀.view a₀.id := by
  have hinv : OutsideInv db₀ a₀ c := by
    refine StepSystem.invariant_of_steps (M := freshSystem F T) (I := OutsideInv db₀ a₀) ?_ ?_ h
    · intro c hinit
      refine ⟨mediationInv_of_reachable (.init hinit), ?_, disciplined_init hinit⟩
      rw [hstart _ hinit.1.1]
      exact ⟨rfl, rfl⟩
    · intro c l c' _ hI hstep
      exact hI.step hsole hkept hstep
  exact hinv.same.view

end Runs

/-! ## A request that is refused -/

section Example

open Calls (Move)

/-- The requests of `payee`, who is no party to the only agreement. -/
def payeeTraffic : Traffic where
  serves r := r.userId = some "payee"
  startsFrom db := db = mediatedStore.db

theorem isOutsider_payee : IsOutsider mediatedStore.db "payee" mediatedAgreement.id :=
  ⟨by decide, by decide⟩

theorem keptOut_payee {r : AgreementRequest} (hr : payeeTraffic.serves r = true) :
    KeptOut mediatedStore.db mediatedAgreement.id r := by
  have huser : r.userId = some "payee" := of_decide_eq_true hr
  constructor
  · intro userId hr'
    rw [huser] at hr'
    cases hr'
    exact isOutsider_payee
  · rintro payload contractId rfl
    cases huser
  · cases r with
    | sync id fetch => cases huser
    | reconcile id first second => cases huser
    | syncStatusTransition id source target => cases huser
    | _ => nofun

/-- `payee` tries to cancel the agreement. -/
def payeeCancels : Served payeeTraffic where
  operation := ⟨0, .updateStatus "payee" "a" ⟨.cancelled, "Q"⟩⟩
  isServed := rfl

theorem outsiders_do_not_interfere_payee : ∃ c : AgreementConfig payeeTraffic,
    (freshSystem exactArithmetic payeeTraffic).Reachable c ∧
      (∃ k, c.threads 0 = some k ∧ Calls.nextCall k.rest = none) ∧
      c.shared.db.view mediatedAgreement.id = mediatedStore.db.view mediatedAgreement.id := by
  have hrun : ((playFrom exactArithmetic _ addsNone mediatedStore
      (.start payeeCancels :: List.replicate 6 (.next 0))).any fun state =>
        state.2[0]?.any fun k => (Calls.nextCall k.rest).isNone) = true := by decide +kernel
  obtain ⟨state, hstate, htask⟩ := (Option.any_eq_true _ _).mp hrun
  obtain ⟨k, hk, hended⟩ := (Option.any_eq_true _ _).mp htask
  have hreach : (freshSystem exactArithmetic payeeTraffic).Reachable
      (Calls.begun state.1 state.2) :=
    fresh_of_guarded (reachable_playFrom rfl rfl (fun _ _ _ => addsNoAgreement_of_addsNone) hstate)
  have hsole : mediatedStore.db.agreements.filter (fun a => a.id = mediatedAgreement.id) =
      [mediatedAgreement] := by decide
  exact ⟨_, hreach, ⟨k, hk, Option.isNone_iff_eq_none.mp hended⟩,
    outsiders_do_not_interfere hsole (fun db hdb => hdb) (fun r => keptOut_payee) hreach⟩

end Example

end ThalosBackend.Agreements
