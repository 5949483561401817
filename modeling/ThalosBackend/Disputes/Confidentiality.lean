import ThalosBackend.Agreements.Outsiders
import ThalosBackend.Disputes.ReadRequests
import ThalosBackend.Library.Indistinguishable

/-!
# Outsiders learn nothing

Two stores that differ only in what is kept about one agreement: its columns, its participants, its
log, what its disputes say and how they were resolved. A user without a part in it can not tell them
apart by any read operation, even where the differences change between the queries of a request.

Not kept from anybody: that the agreement is there and which contract it has, the ids of its disputes,
and what `getOpenDisputes` shows. `Unseen` says so, and `outsiders_learn_nothing` that this is all.
-/

set_option autoImplicit false

namespace ThalosBackend.Disputes

open Js (nonEmpty)
open Calls (Alike Watched alike_ask alike_done alike_fail alike_same ask)
open Wallets (Reply WalletCall WalletDb maybeSingle)
open Agreements

/-! ## Stores that look alike from outside -/

/-- The user has no part in the agreement, which is there, and its disputes are the ones with these
ids. -/
structure Bystander (userId agreementId : String) (wallets : WalletDb) (isOf : String → Bool)
    (db : AgreementDb) : Prop where
  wallet : db.wallet = wallets
  there : ∃ a ∈ db.agreements, a.id = agreementId
  outsider : IsOutsider db userId agreementId
  disputes : ∀ d ∈ db.disputes, d.agreementId = agreementId ↔ isOf d.id = true

/-- The rows are the same, or both are the one of the agreement. -/
def SameAgreement (agreementId : String) (a a' : Agreement) : Prop :=
  a' = a ∨ a.id = agreementId ∧ a'.id = agreementId ∧ a'.contractId = a.contractId

/-- The rows are the same, or both are disputes of the agreement. -/
def SameDispute (agreementId : String) (d d' : Dispute) : Prop :=
  d' = d ∨ d.agreementId = agreementId ∧ d'.agreementId = agreementId ∧ d'.id = d.id

/-- The stores differ in nothing but what is kept about the agreement. -/
structure LooksAlike (agreementId : String) (isOf : String → Bool) (db db' : AgreementDb) : Prop where
  agreements : List.Forall₂ (SameAgreement agreementId) db.agreements db'.agreements
  participants : db'.participants.filter (fun p => p.agreementId ≠ agreementId) =
    db.participants.filter fun p => p.agreementId ≠ agreementId
  activity : db'.activity.filter (fun row => row.agreementId ≠ agreementId) =
    db.activity.filter fun row => row.agreementId ≠ agreementId
  disputes : List.Forall₂ (SameDispute agreementId) db.disputes db'.disputes
  resolutions : db'.resolutions.filter (fun r => !isOf r.disputeId) =
    db.resolutions.filter fun r => !isOf r.disputeId
  -- what `getOpenDisputes` shows to everybody
  opened : (db'.disputes.filter fun d => d.status.isLive).map (embedAgreement db') =
    (db.disputes.filter fun d => d.status.isLive).map (embedAgreement db)

/-- Two stores that the user should not be able to tell apart. -/
structure Unseen (userId agreementId : String) (wallets : WalletDb) (isOf : String → Bool)
    (db db' : AgreementDb) : Prop where
  left : Bystander userId agreementId wallets isOf db
  right : Bystander userId agreementId wallets isOf db'
  alike : LooksAlike agreementId isOf db db'

theorem SameAgreement.symm {agreementId : String} {a a' : Agreement}
    (h : SameAgreement agreementId a a') : SameAgreement agreementId a' a := by
  rcases h with rfl | ⟨hid, hid', hcontract⟩
  · exact .inl rfl
  · exact .inr ⟨hid', hid, hcontract.symm⟩

theorem SameDispute.symm {agreementId : String} {d d' : Dispute}
    (h : SameDispute agreementId d d') : SameDispute agreementId d' d := by
  rcases h with rfl | ⟨hof, hof', hid⟩
  · exact .inl rfl
  · exact .inr ⟨hof', hof, hid.symm⟩

section Facts

variable {userId agreementId : String} {wallets : WalletDb} {isOf : String → Bool}
  {db db' : AgreementDb}

theorem Unseen.symm (h : Unseen userId agreementId wallets isOf db db') :
    Unseen userId agreementId wallets isOf db' db where
  left := h.right
  right := h.left
  alike :=
    { agreements := (h.alike.agreements.imp fun _ _ => SameAgreement.symm).flip
      participants := h.alike.participants.symm
      activity := h.alike.activity.symm
      disputes := (h.alike.disputes.imp fun _ _ => SameDispute.symm).flip
      resolutions := h.alike.resolutions.symm
      opened := h.alike.opened.symm }

/-! ## What an outsider has no part in -/

/-- The wallet is one that the user has. -/
def Owns (wallets : WalletDb) (userId w : String) : Prop :=
  ∀ db : AgreementDb, db.wallet = wallets → w ∈ ownWallets db userId

/-- The creator is neither the user nor one of the wallets. -/
def Foreign (wallets : WalletDb) (userId createdBy : String) : Prop :=
  ∀ w, Owns wallets userId w → createdBy ≠ userId ∧ createdBy ≠ w

variable (h : Bystander userId agreementId wallets isOf db)

include h

namespace Bystander

theorem foreign {a : Agreement} (ha : a ∈ db.agreements) (hid : a.id = agreementId) :
    Foreign wallets userId a.createdBy := by
  intro w hw
  have hadmits := h.outsider.notAdmitted a ha hid w (hw db h.wallet)
  constructor
  · rintro hcreator
    simp [admitsThrough, hcreator] at hadmits
  · rintro hcreator
    simp [admitsThrough, hcreator] at hadmits

theorem no_participant {p : Participant} (hp : p ∈ db.participants)
    (hw : Owns wallets userId p.walletAddress) : p.agreementId ≠ agreementId := by
  intro hagreement
  obtain ⟨a, ha, hid⟩ := h.there
  have hadmits := h.outsider.notAdmitted a ha hid p.walletAddress (hw db h.wallet)
  simp only [admitsThrough, decide_eq_false_iff_not, not_or, not_exists, not_and] at hadmits
  exact hadmits.2.2 p hp (hagreement.trans hid.symm) rfl

theorem not_created {a : Agreement} (ha : a ∈ db.agreements) {own : List String}
    (hown : ∀ w ∈ own, Owns wallets userId w) (hcreator : a.createdBy ∈ own) :
    a.id ≠ agreementId :=
  fun hid => (h.foreign ha hid _ (hown _ hcreator)).2 rfl

theorem not_resolver {d : Dispute} (hd : d ∈ db.disputes) {w : String}
    (hw : Owns wallets userId w) (hresolver : d.resolverWallet = some w) (hne : w ≠ "") :
    d.agreementId ≠ agreementId := by
  intro hof
  have hno := (h.outsider.noDispute d (List.mem_filter.mpr ⟨hd, decide_eq_true hof⟩) w
    (hw db h.wallet)).2
  rw [hresolver] at hno
  simp [nonEmpty, hne] at hno

end Bystander

end Facts

/-! ## Queries of the agreement services -/

/-- A query is answered, or it fails. -/
def QuerySees (c : AgreementCall) (db : AgreementDb) (x : c.reply) : Prop :=
  (∃ db', Agreements.Answers c db x db') ∨ ∃ e, x = .error e

section Queries

variable {userId agreementId : String} {wallets : WalletDb} {isOf : String → Bool}
  {s s' : AgreementDb}

/-- The programs act alike on stores that the user should not be able to tell apart. -/
abbrev QueriesAlike (userId agreementId : String) (wallets : WalletDb) (isOf : String → Bool)
    {α : Type} (Φ : α → α → Prop) (p p' : AgreementProgram α) : Prop :=
  Alike QuerySees (Unseen userId agreementId wallets isOf) Φ p p'

theorem sees_wallet (h : Unseen userId agreementId wallets isOf s s') {c : WalletCall}
    {x : (AgreementCall.wallet c).reply} (hx : QuerySees (.wallet c) s x) :
    QuerySees (.wallet c) s' x := by
  rcases hx with ⟨db', wallet, hx, -⟩ | he
  · refine .inl ⟨_, wallet, ?_, rfl⟩
    rw [h.right.wallet, ← h.left.wallet]
    exact hx
  · exact .inr he

/-- The rows of another agreement are the same. -/
theorem agreementsAt_same (h : Unseen userId agreementId wallets isOf s s') {id : String}
    (hid : id ≠ agreementId) :
    (s'.agreements.filter fun a => a.id = id) = s.agreements.filter fun a => a.id = id := by
  refine Calls.filter_eq_of_forall₂ h.alike.agreements fun a _ a' _ ha => ?_
  rcases ha with rfl | ⟨hof, hof', -⟩
  · exact .inl rfl
  · exact .inr ⟨by simp [hof, hid.symm], by simp [hof', hid.symm]⟩

theorem participants_same (h : Unseen userId agreementId wallets isOf s s') {p : Participant → Bool}
    (hp : ∀ db, Bystander userId agreementId wallets isOf db → ∀ row ∈ db.participants,
      p row = true → row.agreementId ≠ agreementId) :
    s'.participants.filter p = s.participants.filter p :=
  Calls.filter_eq_of_filter_eq h.alike.participants
    (fun row hrow hrow' => decide_eq_true (hp s h.left row hrow hrow'))
    fun row hrow hrow' => decide_eq_true (hp s' h.right row hrow hrow')

theorem sees_findAgreement (h : Unseen userId agreementId wallets isOf s s') {id : String}
    (hid : id ≠ agreementId) {x : (AgreementCall.findAgreement id).reply}
    (hx : QuerySees (.findAgreement id) s x) : QuerySees (.findAgreement id) s' x := by
  rcases hx with ⟨db', rfl, -⟩ | he
  · exact .inl ⟨s', by rw [agreementsAt_same h hid], rfl⟩
  · exact .inr he

/-- What the row of the agreement is answered with tells both sides that the user is a stranger. -/
theorem sees_findAgreement_of (h : Unseen userId agreementId wallets isOf s s')
    {x : (AgreementCall.findAgreement agreementId).reply}
    (hx : QuerySees (.findAgreement agreementId) s x) :
    ∃ x', QuerySees (.findAgreement agreementId) s' x' ∧
      ((Reply.data x = none ∧ Reply.data x' = none) ∨
        ∃ a a', Reply.data x = some a ∧ Reply.data x' = some a' ∧
          Foreign wallets userId a.createdBy ∧ Foreign wallets userId a'.createdBy) := by
  rcases hx with ⟨db', rfl, -⟩ | ⟨e, rfl⟩
  · refine ⟨_, .inl ⟨s', rfl, rfl⟩, ?_⟩
    have hrows : List.Forall₂ (SameAgreement agreementId)
        (s.agreements.filter fun a => a.id = agreementId)
        (s'.agreements.filter fun a => a.id = agreementId) := by
      refine List.rel_filter (fun a a' ha => ?_) h.alike.agreements
      rcases ha with rfl | ⟨hof, hof', -⟩
      · exact Iff.rfl
      · simp [hof, hof']
    have hmem : ∀ a ∈ s.agreements.filter (fun a => a.id = agreementId),
        Foreign wallets userId a.createdBy := fun a ha =>
      h.left.foreign (List.mem_filter.mp ha).1 (of_decide_eq_true (List.mem_filter.mp ha).2)
    have hmem' : ∀ a ∈ s'.agreements.filter (fun a => a.id = agreementId),
        Foreign wallets userId a.createdBy := fun a ha =>
      h.right.foreign (List.mem_filter.mp ha).1 (of_decide_eq_true (List.mem_filter.mp ha).2)
    -- one row on each side, or on neither just one, and then no row is answered
    generalize s.agreements.filter (fun a => a.id = agreementId) = rows at hrows hmem
    generalize s'.agreements.filter (fun a => a.id = agreementId) = rows' at hrows hmem'
    cases hrows with
    | nil => exact .inl ⟨rfl, rfl⟩
    | @cons a a' rest rest' ha hrest =>
        cases hrest with
        | nil =>
            exact .inr ⟨a, a', rfl, rfl, hmem a List.mem_cons_self, hmem' a' List.mem_cons_self⟩
        | cons _ _ => exact .inl ⟨rfl, rfl⟩
  · exact ⟨.error e, .inr ⟨e, rfl⟩, .inl ⟨rfl, rfl⟩⟩

theorem sees_findParticipant (h : Unseen userId agreementId wallets isOf s s') {id : String}
    {own : List String} (hid : id ≠ agreementId)
    {x : (AgreementCall.findParticipant id own).reply}
    (hx : QuerySees (.findParticipant id own) s x) : QuerySees (.findParticipant id own) s' x := by
  rcases hx with ⟨db', hx, -⟩ | he
  · refine .inl ⟨s', ?_, rfl⟩
    rw [participants_same h fun db _ row _ hrow => (of_decide_eq_true hrow).1.trans_ne hid]
    exact hx
  · exact .inr he

/-- The agreement has no participant with a wallet of the user. -/
theorem sees_findParticipant_of (h : Unseen userId agreementId wallets isOf s s') {own : List String}
    (hown : ∀ w ∈ own, Owns wallets userId w)
    {x : (AgreementCall.findParticipant agreementId own).reply}
    (hx : QuerySees (.findParticipant agreementId own) s x) :
    Reply.data x = none ∧ QuerySees (.findParticipant agreementId own) s' x := by
  have hnone : ∀ db, Bystander userId agreementId wallets isOf db → (db.participants.filter fun p =>
      p.agreementId = agreementId ∧ p.walletAddress ∈ own) = [] := by
    intro db hdb
    refine List.filter_eq_nil_iff.mpr fun p hp hrow => ?_
    obtain ⟨hagreement, hw⟩ := of_decide_eq_true hrow
    exact hdb.no_participant hp (hown _ hw) hagreement
  rcases hx with ⟨db', hx, -⟩ | ⟨e, rfl⟩
  · rw [hnone s h.left] at hx
    subst hx
    refine ⟨rfl, .inl ⟨s', ?_, rfl⟩⟩
    rw [hnone s' h.right]
  · exact ⟨rfl, .inr ⟨e, rfl⟩⟩

/-! ## The access checks -/

/-- The wallets that are found are the user's. -/
theorem resolveUserWallets_alike : QueriesAlike userId agreementId wallets isOf
    (fun own own' => own' = own ∧ ∀ w ∈ own, Owns wallets userId w)
    (resolveUserWallets userId) (resolveUserWallets userId) := by
  refine alike_same (fun s s' x h => sees_wallet h) fun s s' linked h hlinked => ?_
  refine alike_same (fun s s' x h => sees_wallet h) fun s₁ s₁' legacy h₁ hlegacy => ?_
  refine alike_done ⟨rfl, fun w hw db hdb => ?_⟩
  rw [List.mem_eraseDups, List.mem_append] at hw
  rw [mem_ownWallets]
  rcases hw with hw | hw
  · rcases hlinked with ⟨db', wallet, ⟨⟨rows, rfl, hperm, -⟩, -⟩, -⟩ | ⟨e, rfl⟩
    · refine .inl ((listWallets_mem ?_).mp hw)
      rw [hdb, ← h.left.wallet]
      exact hperm
    · cases hw
  · rcases hlegacy with ⟨db', wallet, ⟨rfl, -⟩, -⟩ | ⟨e, rfl⟩
    · rw [hdb, ← h₁.left.wallet]
      exact .inr (Option.mem_toList.mp hw)
    · cases hw

theorem userCanAccess_alike {id createdBy : String} (hid : id ≠ agreementId) :
    QueriesAlike userId agreementId wallets isOf Eq (userCanAccessAgreement userId id createdBy)
      (userCanAccessAgreement userId id createdBy) := by
  refine resolveUserWallets_alike.bind ?_
  rintro _ own ⟨rfl, -⟩
  split
  · exact alike_done rfl
  · split
    · exact alike_done rfl
    · exact alike_same (fun s s' x h => sees_findParticipant h hid) fun _ _ _ _ _ => alike_done rfl

/-- To the agreement, the user has no access. -/
theorem userCanAccess_refused {createdBy createdBy' : String}
    (hforeign : Foreign wallets userId createdBy) (hforeign' : Foreign wallets userId createdBy') :
    QueriesAlike userId agreementId wallets isOf (fun ok ok' => ok = false ∧ ok' = false)
      (userCanAccessAgreement userId agreementId createdBy)
      (userCanAccessAgreement userId agreementId createdBy') := by
  refine resolveUserWallets_alike.bind ?_
  rintro _ own ⟨rfl, hown⟩
  split
  · exact alike_done ⟨rfl, rfl⟩
  · rename_i hempty
    have hstranger : ∀ creator, Foreign wallets userId creator →
        ¬ (creator = userId ∨ creator ∈ own) := by
      intro creator hcreator
      obtain ⟨w, hw⟩ := List.exists_mem_of_ne_nil own (by simpa using hempty)
      rintro (huser | hmem)
      · exact (hcreator w (hown w hw)).1 huser
      · exact (hcreator creator (hown creator hmem)).2 rfl
    rw [if_neg (hstranger _ hforeign), if_neg (hstranger _ hforeign')]
    refine alike_ask (fun x x' => Reply.data x = none ∧ Reply.data x' = none) ?_ ?_
    · intro s s' x h hx
      obtain ⟨hnone, hx'⟩ := sees_findParticipant_of h hown hx
      exact ⟨x, hx', hnone, hnone⟩
    · rintro x x' ⟨hx, hx'⟩
      exact alike_done ⟨by rw [hx]; rfl, by rw [hx']; rfl⟩

/-- Whoever passes the check passes it for another agreement. -/
theorem assertCanAccess_alike (id : String) : QueriesAlike userId agreementId wallets isOf
    (fun _ _ => id ≠ agreementId) (Agreements.assertCanAccessAgreement userId id)
    (Agreements.assertCanAccessAgreement userId id) := by
  by_cases hid : id = agreementId
  · subst hid
    refine alike_ask _ (fun s s' x h => sees_findAgreement_of h) ?_
    rintro x x' (⟨hx, hx'⟩ | ⟨a, a', hx, hx', hforeign, hforeign'⟩)
    · rw [hx, hx']
      exact alike_fail _
    · rw [hx, hx']
      refine (userCanAccess_refused hforeign hforeign').bind ?_
      rintro ok ok' ⟨rfl, rfl⟩
      exact alike_fail _
  · refine alike_same (fun s s' x h => sees_findAgreement h hid) fun s s' x h hx => ?_
    cases Reply.data x with
    | none => exact alike_fail _
    | some a =>
        refine (userCanAccess_alike hid).bind ?_
        rintro ok _ rfl
        cases ok with
        | false => exact alike_fail _
        | true => exact alike_done hid

/-- Whoever passes as a wallet has it. -/
theorem assertActorWallet_alike (actorWallet : String) :
    QueriesAlike userId agreementId wallets isOf (fun _ _ => Owns wallets userId actorWallet)
      (Agreements.assertActorWallet userId actorWallet)
      (Agreements.assertActorWallet userId actorWallet) := by
  refine resolveUserWallets_alike.bind ?_
  rintro _ own ⟨rfl, hown⟩
  split
  · exact alike_fail _
  · split
    · exact alike_fail _
    · rename_i hmem
      exact alike_done (hown _ (not_not.mp hmem))

theorem walletForUserId_alike : QueriesAlike userId agreementId wallets isOf
    (fun w w' => w' = w ∧ ∀ wallet ∈ w, Owns wallets userId wallet ∧ wallet ≠ "")
    (walletForUserId userId) (walletForUserId userId) := by
  refine alike_same (fun s s' x h => sees_wallet h) fun s s' x h hx => alike_done ⟨rfl, ?_⟩
  intro wallet hwallet
  refine ⟨fun db hdb => mem_ownWallets.mpr (.inr ?_), (Js.nonEmpty_eq_some.mp hwallet).2⟩
  rcases hx with ⟨db', w, ⟨rfl, -⟩, -⟩ | ⟨e, rfl⟩
  · rw [hdb, ← h.left.wallet]
    exact hwallet
  · cases hwallet

theorem disputesActorWallet_alike (actorWallet : String) :
    QueriesAlike userId agreementId wallets isOf
      (fun _ _ => Owns wallets userId actorWallet ∧ actorWallet ≠ "")
      (assertActorWallet userId actorWallet) (assertActorWallet userId actorWallet) := by
  refine walletForUserId_alike.bind ?_
  rintro _ w ⟨rfl, hw⟩
  split
  · exact alike_fail _
  · rename_i hsame
    exact alike_done (hw actorWallet (not_not.mp hsame))

/-- The rule of the disputes service lets outsiders pass no more than the other one. -/
theorem disputesCanAccess_alike (id : String) : QueriesAlike userId agreementId wallets isOf
    (fun _ _ => id ≠ agreementId) (assertCanAccessAgreement userId id)
    (assertCanAccessAgreement userId id) := by
  refine walletForUserId_alike.bind ?_
  rintro _ w ⟨rfl, hw⟩
  cases w with
  | none => exact alike_fail _
  | some wallet =>
      have howns : Owns wallets userId wallet := (hw wallet rfl).1
      by_cases hid : id = agreementId
      · -- the agreement itself: a stranger is refused, whatever its row says
        subst hid
        refine alike_ask _ (fun s s' x h => sees_findAgreement_of h) ?_
        rintro x x' (⟨hx, hx'⟩ | ⟨a, a', hx, hx', hforeign, hforeign'⟩)
        · rw [hx, hx']
          exact alike_fail _
        · rw [hx, hx']
          have hstranger : ∀ creator, Foreign wallets userId creator →
              ¬ (creator = wallet ∨ creator = userId) := fun creator hcreator =>
            not_or.mpr ⟨(hcreator wallet howns).2, (hcreator wallet howns).1⟩
          dsimp only
          rw [if_neg (hstranger _ hforeign), if_neg (hstranger _ hforeign')]
          refine alike_ask (fun x x' => Reply.data x = none ∧ Reply.data x' = none) ?_ ?_
          · intro s s' x h hx
            obtain ⟨hnone, hx'⟩ := sees_findParticipant_of h (by simpa using howns) hx
            exact ⟨x, hx', hnone, hnone⟩
          · rintro x x' ⟨hx, hx'⟩
            rw [hx, hx']
            exact alike_fail _
      · -- another agreement is the same on both sides
        refine alike_same (fun s s' x h => sees_findAgreement h hid) fun s s' x h hx => ?_
        cases Reply.data x with
        | none => exact alike_fail _
        | some a =>
            dsimp only
            split
            · exact alike_done hid
            · refine alike_same (fun s s' x h => sees_findParticipant h hid) fun s s' parts h hx => ?_
              split
              · exact alike_done hid
              · exact alike_fail _

/-! ## The operations on agreements -/

/-- A contract is found on both sides; where it is the one of the agreement, the rows may differ. -/
theorem sees_findByContract (h : Unseen userId agreementId wallets isOf s s') {contractId : String}
    {x : (AgreementCall.findByContract contractId).reply}
    (hx : QuerySees (.findByContract contractId) s x) :
    ∃ x', QuerySees (.findByContract contractId) s' x' ∧
      (x' = x ∨ ∃ a a', x = .ok (some a) ∧ x' = .ok (some a') ∧ a.id = agreementId ∧
        a'.id = agreementId) := by
  rcases hx with ⟨db', rfl, -⟩ | ⟨e, rfl⟩
  · refine ⟨_, .inl ⟨s', rfl, rfl⟩, ?_⟩
    have hrows : List.Forall₂ (SameAgreement agreementId) (s.byContract contractId)
        (s'.byContract contractId) := by
      refine List.rel_filter (fun a a' ha => ?_) h.alike.agreements
      rcases ha with rfl | ⟨-, -, hcontract⟩
      · exact Iff.rfl
      · simp [hcontract]
    generalize s.byContract contractId = rows at hrows
    generalize s'.byContract contractId = rows' at hrows
    cases hrows with
    | nil => exact .inl rfl
    | @cons a a' rest rest' ha hrest =>
        cases hrest with
        | cons _ _ => exact .inl rfl
        | nil =>
            rcases ha with rfl | ⟨hid, hid', -⟩
            · exact .inl rfl
            · exact .inr ⟨a, a', rfl, rfl, hid, hid'⟩
  · exact ⟨_, .inr ⟨e, rfl⟩, .inl rfl⟩

theorem getByContractId_alike (contractId : String) :
    QueriesAlike userId agreementId wallets isOf Eq (getByContractId userId contractId)
      (getByContractId userId contractId) := by
  refine alike_ask _ (fun s s' x h => sees_findByContract h) ?_
  rintro x x' (rfl | ⟨a, a', rfl, rfl, hid, hid'⟩)
  · rcases x' with e | _ | a
    · dsimp only
      split
      · exact alike_done rfl
      · exact alike_done rfl
    · exact alike_done rfl
    · exact (assertCanAccess_alike a.id).bind fun _ _ _ => alike_done rfl
  · -- both rows are refused
    subst hid
    dsimp only
    rw [hid']
    exact (assertCanAccess_alike a.id).bind fun _ _ hne => absurd rfl hne

end Queries

/-! ## The lists -/

/-- A query is answered, or it fails. -/
def ListSees (c : ListingCall) (db : AgreementDb) (x : c.reply) : Prop :=
  (∃ db', c.Answers db x db') ∨ ∃ e, x = .error e

section Lists

variable {userId agreementId : String} {wallets : WalletDb} {isOf : String → Bool}
  {s s' : AgreementDb}

/-- The programs act alike on stores that the user should not be able to tell apart. -/
abbrev ListsAlike (userId agreementId : String) (wallets : WalletDb) (isOf : String → Bool)
    {α : Type} (Φ : α → α → Prop) (p p' : ListingProgram α) : Prop :=
  Alike ListSees (Unseen userId agreementId wallets isOf) Φ p p'

theorem listed_alike {α : Type} {Φ : α → α → Prop} {p p' : AgreementProgram α}
    (h : QueriesAlike userId agreementId wallets isOf Φ p p') :
    ListsAlike userId agreementId wallets isOf Φ (listed p) (listed p') := by
  refine Alike.embed ?_ ?_ h
  · exact fun _ _ _ hx => hx
  · exact fun _ _ x hx => ⟨x, hx, rfl⟩

/-- No wallet of the user takes part in the agreement. -/
theorem sees_participations (h : Unseen userId agreementId wallets isOf s s') {own : List String}
    (hown : ∀ w ∈ own, Owns wallets userId w) {x : (ListingCall.participations own).reply}
    (hx : ListSees (.participations own) s x) :
    ListSees (.participations own) s' x ∧ ∀ ids, x = .ok ids → agreementId ∉ ids := by
  have hother : ∀ db, Bystander userId agreementId wallets isOf db → ∀ row ∈ db.participants,
      decide (row.walletAddress ∈ own) = true → row.agreementId ≠ agreementId :=
    fun db hdb row hrow hw => hdb.no_participant hrow (hown _ (of_decide_eq_true hw))
  rcases hx with ⟨db', ⟨ids, rfl, hperm⟩, -⟩ | ⟨e, rfl⟩
  · refine ⟨.inl ⟨s', ⟨ids, rfl, ?_⟩, rfl⟩, ?_⟩
    · rw [AgreementDb.participationsOf, participants_same h hother]
      exact hperm
    · rintro _ ⟨⟩ hmem
      obtain ⟨p, hp, hid⟩ := List.mem_map.mp (hperm.mem_iff.mp hmem)
      obtain ⟨hp, hw⟩ := List.mem_filter.mp hp
      exact hother s h.left p hp hw hid
  · exact ⟨.inr ⟨e, rfl⟩, fun ids hids => by cases hids⟩

/-- No wallet of the user has created the agreement. -/
theorem sees_createdRows (h : Unseen userId agreementId wallets isOf s s') {own : List String}
    (hown : ∀ w ∈ own, Owns wallets userId w) {x : (ListingCall.createdRows own).reply}
    (hx : ListSees (.createdRows own) s x) :
    ListSees (.createdRows own) s' x ∧ ∀ ids, x = .ok ids → agreementId ∉ ids := by
  have hsame : (s'.agreements.filter fun a => a.createdBy ∈ own) =
      s.agreements.filter fun a => a.createdBy ∈ own := by
    refine Calls.filter_eq_of_forall₂ h.alike.agreements fun a ha a' ha' hrel => ?_
    rcases hrel with rfl | ⟨hid, hid', -⟩
    · exact .inl rfl
    · refine .inr ⟨decide_eq_false fun hmem => ?_, decide_eq_false fun hmem => ?_⟩
      · exact h.left.not_created ha hown hmem hid
      · exact h.right.not_created ha' hown hmem hid'
  rcases hx with ⟨db', ⟨ids, rfl, hperm⟩, -⟩ | ⟨e, rfl⟩
  · refine ⟨.inl ⟨s', ⟨ids, rfl, ?_⟩, rfl⟩, ?_⟩
    · rw [AgreementDb.createdRowsOf, hsame]
      exact hperm
    · rintro _ ⟨⟩ hmem
      obtain ⟨a, ha, hid⟩ := List.mem_map.mp (hperm.mem_iff.mp hmem)
      obtain ⟨ha, hcreator⟩ := List.mem_filter.mp ha
      exact h.left.not_created ha hown (of_decide_eq_true hcreator) hid
  · exact ⟨.inr ⟨e, rfl⟩, fun ids hids => by cases hids⟩

theorem sees_agreementsByIds (h : Unseen userId agreementId wallets isOf s s') {ids : List String}
    (hids : agreementId ∉ ids) {status agreementType : Option String}
    {x : (ListingCall.agreementsByIds ids status agreementType).reply}
    (hx : ListSees (.agreementsByIds ids status agreementType) s x) :
    ListSees (.agreementsByIds ids status agreementType) s' x := by
  have hsame : s'.agreementsByIds ids status agreementType =
      s.agreementsByIds ids status agreementType := by
    refine Calls.filter_eq_of_forall₂ h.alike.agreements fun a _ a' _ hrel => ?_
    rcases hrel with rfl | ⟨hid, hid', -⟩
    · exact .inl rfl
    · exact .inr ⟨by simp [hid, hids], by simp [hid', hids]⟩
  rcases hx with ⟨db', ⟨rows, rfl, hperm, hsorted⟩, -⟩ | he
  · exact .inl ⟨s', ⟨rows, rfl, hsame ▸ hperm, hsorted⟩, rfl⟩
  · exact .inr he

/-- The ids found do not name the agreement. -/
theorem agreementIdsForWallets_alike {own : List String}
    (hown : ∀ w ∈ own, Owns wallets userId w) : ListsAlike userId agreementId wallets isOf
      (fun found found' => found' = found ∧ agreementId ∉ found.ids)
      (agreementIdsForWallets own) (agreementIdsForWallets own) := by
  rw [agreementIdsForWallets]
  split
  · exact alike_done ⟨rfl, List.not_mem_nil⟩
  · refine alike_same (fun s s' x h hx => (sees_participations h hown hx).1) fun s s' x h hx => ?_
    obtain ⟨-, hparts⟩ := sees_participations h hown hx
    cases x with
    | error e => exact alike_done ⟨rfl, List.not_mem_nil⟩
    | ok participations =>
        refine alike_same (fun s s' y h hy => (sees_createdRows h hown hy).1) fun s s' y h hy => ?_
        obtain ⟨-, hcreated⟩ := sees_createdRows h hown hy
        cases y with
        | error e => exact alike_done ⟨rfl, List.not_mem_nil⟩
        | ok createdRows =>
            refine alike_done ⟨rfl, fun hmem => ?_⟩
            rw [List.mem_eraseDups, List.mem_filter, List.mem_append] at hmem
            rcases hmem.1 with hmem | hmem
            · exact hparts _ rfl hmem
            · exact hcreated _ rfl hmem

theorem fetchAgreementsByIds_alike {ids : List String} (hids : agreementId ∉ ids)
    (status agreementType : Option String) : ListsAlike userId agreementId wallets isOf Eq
      (fetchAgreementsByIds ids status agreementType)
      (fetchAgreementsByIds ids status agreementType) := by
  rw [fetchAgreementsByIds]
  split
  · exact alike_done rfl
  · refine alike_same (fun s s' x h => sees_agreementsByIds h hids) fun s s' x h hx => ?_
    cases x with
    | error e => exact alike_done rfl
    | ok data => exact alike_done rfl

theorem list_alike (query : ListAgreementsQueryDto) : ListsAlike userId agreementId wallets isOf Eq
    (list userId query) (list userId query) := by
  refine (listed_alike resolveUserWallets_alike).bind ?_
  rintro _ own ⟨rfl, hown⟩
  split
  · exact alike_done rfl
  · refine (agreementIdsForWallets_alike hown).bind ?_
    rintro _ found ⟨rfl, hids⟩
    split
    · exact alike_done rfl
    · exact fetchAgreementsByIds_alike hids _ _

theorem listByWallet_alike (wallet : String) : ListsAlike userId agreementId wallets isOf Eq
    (listByWallet userId wallet) (listByWallet userId wallet) := by
  refine (listed_alike (assertActorWallet_alike wallet)).bind fun _ _ howns => ?_
  have hown : ∀ w ∈ [wallet], Owns wallets userId w := by simpa using howns
  refine (agreementIdsForWallets_alike hown).bind ?_
  rintro _ found ⟨rfl, hids⟩
  split
  · exact alike_done rfl
  · exact fetchAgreementsByIds_alike hids _ _

end Lists

/-! ## The read operations -/

section Reads

variable {userId agreementId : String} {wallets : WalletDb} {isOf : String → Bool}
  {s s' : AgreementDb}

/-- The programs act alike on stores that the user should not be able to tell apart. -/
abbrev ReadsAlike (userId agreementId : String) (wallets : WalletDb) (isOf : String → Bool)
    {α : Type} (Φ : α → α → Prop) (p p' : ReadProgram α) : Prop :=
  Alike ReadCall.Sees (Unseen userId agreementId wallets isOf) Φ p p'

theorem reads_alike {α : Type} {Φ : α → α → Prop} {p p' : ListingProgram α}
    (h : ListsAlike userId agreementId wallets isOf Φ p p') :
    ReadsAlike userId agreementId wallets isOf Φ (reads p) (reads p') := by
  refine Alike.embed ?_ ?_ h
  · exact fun _ _ _ hx => hx
  · exact fun _ _ x hx => ⟨x, hx, rfl⟩

theorem sees_getAgreement (h : Unseen userId agreementId wallets isOf s s') {id : String}
    (hid : id ≠ agreementId) {x : (ReadCall.listing (.agreement (.getAgreement id))).reply}
    (hx : ReadCall.Sees (.listing (.agreement (.getAgreement id))) s x) :
    ReadCall.Sees (.listing (.agreement (.getAgreement id))) s' x := by
  rcases hx with ⟨db', hx, -⟩ | he
  · refine .inl ⟨s', ?_, rfl⟩
    rw [agreementsAt_same h hid]
    exact hx
  · exact .inr he

theorem sees_listParticipants (h : Unseen userId agreementId wallets isOf s s') {id : String}
    (hid : id ≠ agreementId) {x : (ReadCall.listing (.agreement (.listParticipants id))).reply}
    (hx : ReadCall.Sees (.listing (.agreement (.listParticipants id))) s x) :
    ReadCall.Sees (.listing (.agreement (.listParticipants id))) s' x := by
  rcases hx with ⟨db', ⟨rows, rfl, hperm⟩, -⟩ | he
  · refine .inl ⟨s', ⟨rows, rfl, ?_⟩, rfl⟩
    rw [participants_same h fun db _ row _ hrow => (of_decide_eq_true hrow).trans_ne hid]
    exact hperm
  · exact .inr he

theorem getById_alike (id : String) : ReadsAlike userId agreementId wallets isOf Eq
    (getById userId id) (getById userId id) := by
  refine (reads_alike (listed_alike (assertCanAccess_alike id))).bind fun _ _ hid => ?_
  refine alike_same (fun s s' x h => sees_getAgreement h hid) fun s s' x h hx => ?_
  cases x with
  | error e => exact alike_done rfl
  | ok a =>
      refine alike_same (fun s s' y h => sees_listParticipants h hid) fun s s' y h hy => ?_
      cases y with
      | error e => exact alike_done rfl
      | ok participants => exact alike_done rfl

theorem sees_activityOf (h : Unseen userId agreementId wallets isOf s s') {id : String}
    (hid : id ≠ agreementId) {x : (ReadCall.activityOf id).reply}
    (hx : ReadCall.Sees (.activityOf id) s x) : ReadCall.Sees (.activityOf id) s' x := by
  rcases hx with ⟨rows, rfl, hperm⟩ | he
  · refine .inl ⟨rows, rfl, ?_⟩
    rw [Calls.filter_eq_of_filter_eq h.alike.activity
      (fun row _ hrow => decide_eq_true ((of_decide_eq_true hrow).trans_ne hid))
      fun row _ hrow => decide_eq_true ((of_decide_eq_true hrow).trans_ne hid)]
    exact hperm
  · exact .inr he

theorem getActivity_alike (id : String) : ReadsAlike userId agreementId wallets isOf Eq
    (getActivity userId id) (getActivity userId id) := by
  refine (reads_alike (listed_alike (assertCanAccess_alike id))).bind fun _ _ hid => ?_
  refine alike_same (fun s s' x h => sees_activityOf h hid) fun s s' x h hx => ?_
  cases x with
  | error e => exact alike_done rfl
  | ok data => exact alike_done rfl

theorem getOpenDisputes_alike : ReadsAlike userId agreementId wallets isOf Eq
    (getOpenDisputes userId) (getOpenDisputes userId) := by
  refine alike_same (fun s s' x h hx => ?_) fun s s' x h hx => ?_
  · rcases hx with ⟨rows, rfl, hrows⟩ | he
    · exact .inl ⟨rows, rfl, h.alike.opened ▸ hrows⟩
    · exact .inr he
  · cases x with
    | error e => exact alike_done rfl
    | ok data => exact alike_done rfl

/-! ## Disputes of other agreements -/

/-- A dispute of another agreement comes with the same columns of it. -/
theorem embedAgreement_same (h : Unseen userId agreementId wallets isOf s s') {d : Dispute}
    (hd : d.agreementId ≠ agreementId) : embedAgreement s' d = embedAgreement s d := by
  rw [embedAgreement, embedAgreement, agreementsAt_same h hd]

/-- Disputes that are none of the agreement are the same, and come with the same columns. -/
theorem disputes_same (h : Unseen userId agreementId wallets isOf s s') {p : Dispute → Bool}
    (hp : ∀ db, Bystander userId agreementId wallets isOf db → ∀ d ∈ db.disputes, p d = true →
      d.agreementId ≠ agreementId) :
    s'.disputes.filter p = s.disputes.filter p ∧
      (s'.disputes.filter p).map (embedAgreement s') =
        (s.disputes.filter p).map (embedAgreement s) := by
  have hsame : s'.disputes.filter p = s.disputes.filter p := by
    refine Calls.filter_eq_of_forall₂ h.alike.disputes fun d hd d' hd' hrel => ?_
    rcases hrel with rfl | ⟨hof, hof', -⟩
    · exact .inl rfl
    · refine .inr ⟨Bool.eq_false_iff.mpr fun hyes => ?_, Bool.eq_false_iff.mpr fun hyes => ?_⟩
      · exact hp s h.left d hd hyes hof
      · exact hp s' h.right d' hd' hyes hof'
  refine ⟨hsame, ?_⟩
  rw [hsame]
  refine List.map_congr_left fun d hd => embedAgreement_same h ?_
  obtain ⟨hd, hyes⟩ := List.mem_filter.mp hd
  exact hp s h.left d hd hyes

theorem getDisputesByResolver_alike (resolverWallet : String) :
    ReadsAlike userId agreementId wallets isOf Eq (getDisputesByResolver userId resolverWallet)
      (getDisputesByResolver userId resolverWallet) := by
  refine (reads_alike (listed_alike (disputesActorWallet_alike resolverWallet))).bind ?_
  rintro _ _ ⟨howns, hne⟩
  refine alike_same (fun s s' x h hx => ?_) fun s s' x h hx => ?_
  · rcases hx with ⟨rows, rfl, hrows⟩ | he
    · refine .inl ⟨rows, rfl, ?_⟩
      rw [(disputes_same h fun db hdb d hd hd' =>
        hdb.not_resolver hd howns (of_decide_eq_true hd') hne).2]
      exact hrows
    · exact .inr he
  · cases x with
    | error e => exact alike_done rfl
    | ok data => exact alike_done rfl

theorem getDisputesByAgreement_alike (id : String) : ReadsAlike userId agreementId wallets isOf Eq
    (getDisputesByAgreement userId id) (getDisputesByAgreement userId id) := by
  refine (reads_alike (listed_alike (disputesCanAccess_alike id))).bind fun _ _ hid => ?_
  refine alike_same (fun s s' x h hx => ?_) fun s s' x h hx => ?_
  · rcases hx with ⟨rows, rfl, hperm, hsorted⟩ | he
    · refine .inl ⟨rows, rfl, ?_, hsorted⟩
      rw [(disputes_same h fun db hdb d hd hd' => (of_decide_eq_true hd').trans_ne hid).1]
      exact hperm
    · exact .inr he
  · cases x with
    | error e => exact alike_done rfl
    | ok data => exact alike_done rfl

/-- A dispute is found on both sides; where it is one of the agreement, the rows may differ. -/
theorem sees_disputeById (h : Unseen userId agreementId wallets isOf s s') {id : String}
    {x : (ReadCall.disputeById id).reply} (hx : ReadCall.Sees (.disputeById id) s x) :
    ∃ x', ReadCall.Sees (.disputeById id) s' x' ∧
      ((x' = x ∧ ∀ d, Reply.data x = some d → d.dispute.agreementId ≠ agreementId ∧ isOf id = false) ∨
        ∃ d d', Reply.data x = some d ∧ Reply.data x' = some d' ∧
          d.dispute.agreementId = agreementId ∧ d'.dispute.agreementId = agreementId) := by
  rcases hx with rfl | ⟨e, rfl⟩
  · refine ⟨_, .inl rfl, ?_⟩
    have hrows : List.Forall₂ (SameDispute agreementId) (s.disputes.filter fun d => d.id = id)
        (s'.disputes.filter fun d => d.id = id) := by
      refine List.rel_filter (fun d d' hd => ?_) h.alike.disputes
      rcases hd with rfl | ⟨-, -, hid⟩
      · exact Iff.rfl
      · simp [hid]
    have hmem : ∀ d ∈ s.disputes.filter (fun d => d.id = id), d ∈ s.disputes ∧ d.id = id :=
      fun d hd => ⟨(List.mem_filter.mp hd).1, of_decide_eq_true (List.mem_filter.mp hd).2⟩
    -- what follows depends on the rows that were found only, and these come in pairs
    generalize s.disputes.filter (fun d => d.id = id) = rows at hrows hmem
    generalize s'.disputes.filter (fun d => d.id = id) = rows' at hrows
    cases hrows with
    | nil => exact .inl ⟨rfl, fun d hd => by cases hd⟩
    | @cons d d' rest rest' hd hrest =>
        cases hrest with
        | cons _ _ => exact .inl ⟨rfl, fun d hd => by cases hd⟩
        | nil =>
            obtain ⟨hthere, hid⟩ := hmem d List.mem_cons_self
            by_cases hof : d.agreementId = agreementId
            · -- a dispute of the agreement has a counterpart that is one, too
              have hof' : d'.agreementId = agreementId := by
                rcases hd with rfl | ⟨-, hof', -⟩
                · exact hof
                · exact hof'
              exact .inr ⟨embedAgreement s d, embedAgreement s' d', rfl, rfl, hof, hof'⟩
            · -- any other dispute is the same row, with the same agreement beside it
              rcases hd with rfl | ⟨hof', -, -⟩
              · refine .inl ⟨?_, ?_⟩
                · rw [List.map_singleton, List.map_singleton, embedAgreement_same h hof]
                · rintro _ ⟨⟩
                  refine ⟨hof, ?_⟩
                  rw [← hid, ← Bool.not_eq_true]
                  exact fun hyes => hof ((h.left.disputes d' hthere).mpr hyes)
              · exact absurd hof' hof
  · exact ⟨_, .inr ⟨e, rfl⟩, .inl ⟨rfl, fun d hd => by cases hd⟩⟩

theorem sees_resolutionOf (h : Unseen userId agreementId wallets isOf s s') {disputeId : String}
    (hother : isOf disputeId = false) {x : (ReadCall.resolutionOf disputeId).reply}
    (hx : ReadCall.Sees (.resolutionOf disputeId) s x) :
    ReadCall.Sees (.resolutionOf disputeId) s' x := by
  rcases hx with rfl | he
  · refine .inl ?_
    have hnot : ∀ r : DisputeResolution, decide (r.disputeId = disputeId) = true →
        (!isOf r.disputeId) = true := by
      intro r hr
      rw [of_decide_eq_true hr, hother]
      rfl
    simp only [ReadCall.Answers]
    rw [Calls.filter_eq_of_filter_eq h.alike.resolutions (fun r _ => hnot r) fun r _ => hnot r]
  · exact .inr he

theorem getDisputeById_alike (disputeId : String) : ReadsAlike userId agreementId wallets isOf Eq
    (getDisputeById userId disputeId) (getDisputeById userId disputeId) := by
  refine alike_ask _ (fun s s' x h => sees_disputeById h) ?_
  rintro x x' (⟨rfl, hfacts⟩ | ⟨d, d', hx, hx', hof, hof'⟩)
  · cases hd : Reply.data x' with
    | none => exact alike_fail _
    | some d =>
        obtain ⟨-, hother⟩ := hfacts d hd
        refine (reads_alike (listed_alike (disputesCanAccess_alike _))).bind fun _ _ _ => ?_
        exact alike_same (fun s s' r h => sees_resolutionOf h hother) fun _ _ _ _ _ => alike_done rfl
  · -- both are refused
    rw [hx, hx']
    dsimp only
    rw [hof, hof']
    exact (reads_alike (listed_alike (disputesCanAccess_alike agreementId))).bind
      fun _ _ hne => absurd rfl hne

/-! ## Every read operation -/

/-- **No read operation can tell the stores apart.** -/
theorem request_alike (r : ReadRequest) :
    ReadsAlike userId agreementId wallets isOf Eq (r.program userId) (r.program userId) := by
  have hanswered : ∀ {α : Type} (answer : α → ReadAnswer) (a a' : α), a = a' →
      ReadsAlike userId agreementId wallets isOf Eq (.done (answer a)) (.done (answer a')) :=
    fun answer a a' ha => alike_done (congrArg answer ha)
  cases r with
  | list query => exact (reads_alike (list_alike query)).bind (hanswered _)
  | listByWallet wallet => exact (reads_alike (listByWallet_alike wallet)).bind (hanswered _)
  | getById id => exact (getById_alike id).bind (hanswered _)
  | getByContractId contractId =>
      exact (reads_alike (listed_alike (getByContractId_alike contractId))).bind (hanswered _)
  | getActivity id => exact (getActivity_alike id).bind (hanswered _)
  | getOpenDisputes => exact getOpenDisputes_alike.bind (hanswered _)
  | getDisputesByResolver wallet => exact (getDisputesByResolver_alike wallet).bind (hanswered _)
  | getDisputeById id => exact (getDisputeById_alike id).bind (hanswered _)
  | getDisputesByAgreement id => exact (getDisputesByAgreement_alike id).bind (hanswered _)

/-- **Outsiders learn nothing.** A read operation of a user without a part in the agreement can end in
the same ways on two courses of the store that differ, from query to query, in nothing but what is kept
about the agreement. -/
theorem outsiders_learn_nothing {stores stores' : List AgreementDb}
    (h : List.Forall₂ (Unseen userId agreementId wallets isOf) stores stores') (r : ReadRequest)
    {out : Except HttpException ReadAnswer} :
    Watched ReadCall.Sees (r.program userId) stores out ↔
      Watched ReadCall.Sees (r.program userId) stores' out := by
  constructor
  · exact (request_alike r).watched h
  · exact (request_alike r).watched (h.imp fun _ _ => Unseen.symm).flip

end Reads

/-! ## An agreement under another title -/

section Example

/-- The agreement of `payer` as it was, and with its terms rewritten. -/
def retitledStore : AgreementDb :=
  { mediatedStore.db with
    agreements := [{ mediatedAgreement with title := "Villa", amount := "90", status := none }] }

theorem unseen_retitled : Unseen "payee" "a" mediatedStore.db.wallet (fun _ => false)
    mediatedStore.db retitledStore where
  left := ⟨rfl, ⟨mediatedAgreement, by decide, rfl⟩, isOutsider_payee, by decide⟩
  right := ⟨rfl, ⟨_, List.mem_singleton_self _, rfl⟩, ⟨by decide, by decide⟩, by decide⟩
  alike := ⟨.cons (.inr ⟨rfl, rfl, rfl⟩) .nil, rfl, rfl, .nil, rfl, rfl⟩

/-- `payee` asks for the agreement, whose terms are rewritten meanwhile or not. -/
theorem outsiders_learn_nothing_retitled :
    (retitledStore.agreements ≠ mediatedStore.db.agreements ∧
      Watched ReadCall.Sees ((ReadRequest.getById "a").program "payee")
        (List.replicate 4 mediatedStore.db)
        (.error (.forbidden "Not a participant of this agreement"))) ∧
    (Watched ReadCall.Sees ((ReadRequest.getById "a").program "payee")
        (List.replicate 4 mediatedStore.db)
        (.error (.forbidden "Not a participant of this agreement")) ↔
      Watched ReadCall.Sees ((ReadRequest.getById "a").program "payee")
        (mediatedStore.db :: List.replicate 3 retitledStore)
        (.error (.forbidden "Not a participant of this agreement"))) := by
  have hsame : Unseen "payee" "a" mediatedStore.db.wallet (fun _ => false) mediatedStore.db
      mediatedStore.db :=
    ⟨unseen_retitled.left, unseen_retitled.left, ⟨.cons (.inl rfl) .nil, rfl, rfl, .nil, rfl, rfl⟩⟩
  refine ⟨⟨by decide, ?_⟩, ?_⟩
  · refine ⟨_, _, .ok (some mediatedAgreement), rfl, .inl ⟨_, rfl, rfl⟩, ?_⟩
    refine ⟨_, _, .ok [], rfl, .inl ⟨_, _, ⟨⟨[], rfl, .refl _, .nil⟩, rfl⟩, rfl⟩, ?_⟩
    refine ⟨_, _, _, rfl, .inl ⟨_, _, ⟨rfl, rfl⟩, rfl⟩, ?_⟩
    exact ⟨_, _, .ok none, rfl, .inl ⟨_, rfl, rfl⟩, rfl, rfl⟩
  · exact outsiders_learn_nothing (.cons hsame (.cons unseen_retitled (.cons unseen_retitled
      (.cons unseen_retitled .nil)))) (.getById "a")

end Example

end ThalosBackend.Disputes
