import ThalosBackend.Agreements.AgreementListing
import ThalosBackend.Agreements.MilestoneWrites
import ThalosBackend.Agreements.MoneyIdentity

/-!
# Contract links

The contract id of an agreement comes from `create`, which takes it as it is, or from `linkContract`,
which asks Trustless Work for it, and believes the answer also when it is about another contract. Webhooks
and `getByContractId` look an agreement up by this id alone.

A run of the two operations is kept with its log: what was asked, and how it ended. Where no creation
brings a contract id, no link repeats the id of another agreement, and Trustless Work answers each with an
escrow of the contract, every contract id in the store was confirmed by the link that stored it, and
belongs to one agreement.
-/

set_option autoImplicit false

namespace ThalosBackend.Agreements

open Js (FloatArithmetic Timestamp)
open Calls (Ensures)
open InternalTrustless (answeredEscrows carries)

/-! ## Runs with their log -/

/-- A served request, and what it ended with. -/
structure ServedOperation where
  operation : Operation
  outcome : Except HttpException AgreementAnswer

/-- The store, and the requests served so far. -/
structure LinkLog where
  db : AgreementDb
  log : List ServedOperation

/-- A request that can store a contract id. -/
def AgreementRequest.isLinking : AgreementRequest → Bool
  | .create _ _ | .linkContract _ _ _ _ => true
  | _ => false

/-- `create` and `linkContract` in any order, from a store without agreements. -/
def linkSystem (F : FloatArithmetic) : StepSystem LinkLog Operation where
  init s := s.db.isNew ∧ s.log = []
  step s o s' := o.request.isLinking = true ∧ ∃ out,
    Calls.Runs Executes (o.program F) s.db out s'.db ∧ s'.log = s.log ++ [⟨o, out⟩]

/-- The answer of Trustless Work holds an escrow of the contract. -/
def Fetch.confirms (fetch : Fetch) (contractId : String) : Bool :=
  fetch.body.any fun body => (answeredEscrows body).any (carries contractId)

/-- The request has linked the contract to the agreement, and Trustless Work has confirmed it. -/
def ServedOperation.confirmsLink (served : ServedOperation) (agreementId contractId : String) : Prop :=
  ∃ userId dto fetch, served.operation.request = .linkContract userId agreementId dto fetch ∧
    dto.contractId = contractId ∧ fetch.confirms contractId = true ∧
      served.outcome = .ok (.done ⟨true, none⟩)

/-- The links are sound: confirmed when they were stored, and each to an agreement of its own, so that
a lookup finds at most one. -/
structure LinkIntegrity (s : LinkLog) : Prop where
  confirmed : ∀ a ∈ s.db.agreements, ∀ contractId, a.contractId = some contractId →
    ∃ served ∈ s.log, served.confirmsLink a.id contractId
  apart : ∀ a ∈ s.db.agreements, ∀ b ∈ s.db.agreements, ∀ contractId,
    a.contractId = some contractId → b.contractId = some contractId → a = b
  found : ∀ contractId, (s.db.byContract contractId).length ≤ 1

/-! ## When a request is harmless -/

/-- The contract id that the request gets to store, if every query is answered. -/
def storedContract (F : FloatArithmetic) (db : AgreementDb) : AgreementRequest → Option String
  | .create userId dto => if acceptsCreate F db userId dto then dto.contractId else none
  | .linkContract userId agreementId dto fetch =>
      if mayAccess db userId agreementId ∧ dto.actorWallet ∈ ownWallets db userId ∧
          (validateContractOnTrustless dto.contractId fetch).valid then
        some dto.contractId
      else none
  | _ => none

/-- A creation stores no contract id, and a link only one that the answer is about and no other
agreement has. -/
def linksSafely (F : FloatArithmetic) (db : AgreementDb) (o : Operation) : Bool :=
  match o.request with
  | .linkContract _ agreementId _ fetch => ∀ contractId ∈ storedContract F db o.request,
      fetch.confirms contractId = true ∧
        ∀ a ∈ db.agreements, a.contractId = some contractId → a.id = agreementId
  | request => storedContract F db request = none

/-! ## What the two operations store -/

section Stores

variable {F : FloatArithmetic} {db : AgreementDb}

/-- A creation changes no row that is there. -/
theorem RowStep.eq_of_create {o : Operation} {userId : String} {dto : CreateAgreementDto}
    (ho : o.request = .create userId dto) {a a' : Agreement} (h : RowStep o a a') : a' = a := by
  cases h with
  | same => rfl
  | disputed target hdispute =>
      rw [ho] at hdispute
      cases hdispute
  | linked userId dto fetch h => cases ho.symm.trans h
  | status userId dto h => cases ho.symm.trans h
  | milestone userId dto m h => cases ho.symm.trans h
  | webhookStatus payload event contractId target h => cases ho.symm.trans h
  | webhookMilestones payload event contractId milestones h => cases ho.symm.trans h
  | pulled _ fetch h => cases ho.symm.trans h
  | reconciled _ first second h => cases ho.symm.trans h

/-- A creation adds the row it has checked, for a wallet of the user, or nothing. -/
theorem create_stores {o : Operation} {userId : String} {dto : CreateAgreementDto}
    (ho : o.request = .create userId dto) {db' : AgreementDb}
    (h : (agreementSystem F).step db o db') :
    db'.agreements = db.agreements ∨ ∃ id created, (∀ a ∈ db.agreements, a.id ≠ id) ∧
      db'.agreements = db.agreements ++ [dto.row.row id created] ∧
      storedContract F db o.request = dto.contractId := by
  rcases step_milestones h with hsteps | ⟨userId', dto', id, created, ho', haccepts, hfresh, hadded⟩
  · left
    have hsame := hsteps.imp fun a a' hrow => (RowStep.eq_of_create ho hrow.1).symm
    exact (List.forall₂_eq_eq_eq ▸ hsame : db.agreements = db'.agreements).symm
  · cases ho.symm.trans ho'
    refine .inr ⟨id, created, hfresh, hadded, ?_⟩
    rw [ho, storedContract, if_pos haccepts]

/-- A link writes the contract into the agreement once every check has passed, or nothing. -/
theorem linkContract_stores {now : Timestamp} {userId agreementId : String} {dto : LinkContractDto}
    {fetch : Fetch} :
    Ensures Executes (linkContract now userId agreementId dto fetch) db fun out db' =>
      db'.agreements = db.agreements ∨
        storedContract F db (.linkContract userId agreementId dto fetch) = some dto.contractId ∧
        out = .ok ⟨true, none⟩ ∧
        db'.agreements = Table.updateWhere (fun a => a.id = agreementId)
          (Agreement.apply { contractId := some dto.contractId, updatedAt := now })
          db.agreements := by
  refine Calls.ensures_bind.mpr (assertCanAccessAgreement_own.mono ?_)
  rintro access db₁ ⟨rfl, haccess⟩
  refine ⟨fun _ hpass => ?_, fun e _ => .inl rfl⟩
  have hmay := haccess (by rw [hpass])
  refine Calls.ensures_bind.mpr (assertActorWallet_own.mono ?_)
  rintro actor db₂ ⟨rfl, hactor⟩
  refine ⟨fun _ hpass => ?_, fun e _ => .inl rfl⟩
  have hown := hactor (by rw [hpass])
  dsimp only
  split
  · exact .inl rfl
  · rename_i hvalid
    rw [Bool.not_eq_true', Bool.not_eq_false] at hvalid
    refine Calls.ensures_ask fun x db₃ hx => ?_
    rcases hx with ⟨rfl, rfl⟩ | ⟨-, ⟨e, rfl⟩, rfl⟩
    · -- the log entry and the sync that follow touch no agreement
      refine Calls.ensures_ask fun y db₄ hy => Calls.ensures_ask fun z db₅ hz => .inr ?_
      have hrows := (hz.sameTables rfl).agreements.trans (hy.sameTables rfl).agreements
      exact ⟨if_pos ⟨hmay, hown, hvalid⟩, rfl, hrows⟩
    · exact .inl rfl

/-- What is left after a run of a link. -/
theorem link_stores {o : Operation} {userId agreementId : String} {dto : LinkContractDto}
    {fetch : Fetch} (ho : o.request = .linkContract userId agreementId dto fetch)
    {out : Except HttpException AgreementAnswer} {db' : AgreementDb}
    (hrun : Calls.Runs Executes (o.program F) db out db') :
    db'.agreements = db.agreements ∨
      storedContract F db o.request = some dto.contractId ∧
      out = .ok (.done ⟨true, none⟩) ∧
      db'.agreements = Table.updateWhere (fun a => a.id = agreementId)
        (Agreement.apply { contractId := some dto.contractId, updatedAt := o.now }) db.agreements := by
  have hend : Ensures Executes (o.program F) db fun out db' => db'.agreements = db.agreements ∨
      storedContract F db o.request = some dto.contractId ∧
      out = .ok (.done ⟨true, none⟩) ∧
      db'.agreements = Table.updateWhere (fun a => a.id = agreementId)
        (Agreement.apply { contractId := some dto.contractId, updatedAt := o.now })
        db.agreements := by
    obtain ⟨now, request⟩ := o
    cases ho
    refine Calls.ensures_bind.mpr ((linkContract_stores (F := F)).mono ?_)
    rintro out db' (hsame | ⟨hstored, rfl, hrows⟩)
    · exact ⟨fun _ _ => .inl hsame, fun _ _ => .inl hsame⟩
    · refine ⟨fun result hresult => .inr ⟨hstored, ?_, hrows⟩, fun e he => by cases he⟩
      cases hresult
      rfl
  exact Calls.ensures_iff.mp hend out db' hrun

end Stores

/-! ## The invariant -/

section Runs

variable {F : FloatArithmetic} {s s' : LinkLog}

/-- What every run keeps: ids and contract ids of their own, and a confirmation for each link. -/
structure LinkInvariant (s : LinkLog) : Prop where
  ids : Table.Unique Agreement.id s.db.agreements
  confirmed : ∀ a ∈ s.db.agreements, ∀ contractId, a.contractId = some contractId →
    ∃ served ∈ s.log, served.confirmsLink a.id contractId
  apart : ∀ a ∈ s.db.agreements, ∀ b ∈ s.db.agreements, ∀ contractId,
    a.contractId = some contractId → b.contractId = some contractId → a.id = b.id

theorem linkInvariant_init (h : (linkSystem F).init s) : LinkInvariant s := by
  obtain ⟨⟨hnone, -, -⟩, -⟩ := h
  refine ⟨?_, ?_, ?_⟩
  · rw [hnone]
    exact List.nodup_nil
  · rw [hnone]
    intro a ha
    cases ha
  · rw [hnone]
    intro a ha
    cases ha

/-- More served requests, the same agreements. -/
theorem LinkInvariant.of_agreements (h : LinkInvariant s)
    (hrows : s'.db.agreements = s.db.agreements) {served : ServedOperation}
    (hlog : s'.log = s.log ++ [served]) : LinkInvariant s' := by
  refine ⟨?_, ?_, ?_⟩
  · rw [hrows]
    exact h.ids
  · rw [hrows, hlog]
    intro a ha contractId hcontract
    obtain ⟨served', hserved', hconfirms⟩ := h.confirmed a ha contractId hcontract
    exact ⟨served', List.mem_append_left _ hserved', hconfirms⟩
  · rw [hrows]
    exact h.apart

/-- A new agreement that has no contract. -/
theorem LinkInvariant.concat (h : LinkInvariant s) {row : Agreement}
    (hrows : s'.db.agreements = s.db.agreements ++ [row]) (hfresh : ∀ a ∈ s.db.agreements, a.id ≠ row.id)
    (hnone : row.contractId = none) {served : ServedOperation} (hlog : s'.log = s.log ++ [served]) :
    LinkInvariant s' := by
  have hold : ∀ a ∈ s'.db.agreements, ∀ contractId, a.contractId = some contractId →
      a ∈ s.db.agreements := by
    rw [hrows]
    intro a ha contractId hcontract
    rcases List.mem_append.mp ha with ha | ha
    · exact ha
    · rw [List.mem_singleton.mp ha, hnone] at hcontract
      cases hcontract
  refine ⟨?_, ?_, ?_⟩
  · rw [hrows]
    exact h.ids.concat hfresh
  · intro a ha contractId hcontract
    obtain ⟨served', hserved', hconfirms⟩ :=
      h.confirmed a (hold a ha contractId hcontract) contractId hcontract
    exact ⟨served', hlog ▸ List.mem_append_left _ hserved', hconfirms⟩
  · intro a ha b hb contractId hca hcb
    exact h.apart a (hold a ha contractId hca) b (hold b hb contractId hcb) contractId hca hcb

/-- A confirmed link to a contract that no other agreement has. -/
theorem LinkInvariant.link (h : LinkInvariant s) {agreementId contractId : String} {now : Timestamp}
    (hrows : s'.db.agreements = Table.updateWhere (fun a => a.id = agreementId)
      (Agreement.apply { contractId := some contractId, updatedAt := now }) s.db.agreements)
    (hfree : ∀ a ∈ s.db.agreements, a.contractId = some contractId → a.id = agreementId)
    {served : ServedOperation} (hconfirms : served.confirmsLink agreementId contractId)
    (hlog : s'.log = s.log ++ [served]) : LinkInvariant s' := by
  -- a row after the link is the linked one, or one that was there under another id
  have hcases : ∀ a ∈ s'.db.agreements, (a.id = agreementId ∧ a.contractId = some contractId) ∨
      (a.id ≠ agreementId ∧ a ∈ s.db.agreements) := by
    rw [hrows]
    refine Table.forall_mem_updateWhere (fun a ha hid => ?_) (fun a _ hid => ?_)
    · exact .inr ⟨of_decide_eq_false hid, ha⟩
    · exact .inl ⟨of_decide_eq_true hid, rfl⟩
  refine ⟨?_, ?_, ?_⟩
  · rw [hrows]
    exact h.ids.updateWhere fun _ _ => rfl
  · intro a ha contractId' hcontract
    rw [hlog]
    rcases hcases a ha with ⟨hid, hlinked⟩ | ⟨-, hold⟩
    · rw [hlinked] at hcontract
      cases hcontract
      rw [hid]
      exact ⟨served, List.mem_append_right _ (List.mem_singleton_self _), hconfirms⟩
    · obtain ⟨served', hserved', hconfirms'⟩ := h.confirmed a hold contractId' hcontract
      exact ⟨served', List.mem_append_left _ hserved', hconfirms'⟩
  · intro a ha b hb contractId' hca hcb
    rcases hcases a ha with ⟨hida, hlinkeda⟩ | ⟨hida, holda⟩
    · rcases hcases b hb with ⟨hidb, -⟩ | ⟨hidb, holdb⟩
      · exact hida.trans hidb.symm
      · rw [hlinkeda] at hca
        cases hca
        exact absurd (hfree b holdb hcb) hidb
    · rcases hcases b hb with ⟨hidb, hlinkedb⟩ | ⟨hidb, holdb⟩
      · rw [hlinkedb] at hcb
        cases hcb
        exact absurd (hfree a holda hca) hida
      · exact h.apart a holda b holdb contractId' hca hcb

/-- **Step lemma.** A request that links safely keeps the invariant. -/
theorem linkInvariant_step {o : Operation} (h : LinkInvariant s)
    (hsafe : linksSafely F s.db o = true) (hs : (linkSystem F).step s o s') : LinkInvariant s' := by
  obtain ⟨hlinking, out, hrun, hlog⟩ := hs
  cases hrequest : o.request with
  | create userId dto =>
      have hstored : storedContract F s.db o.request = none := by
        simpa [linksSafely, hrequest] using hsafe
      rcases create_stores hrequest ⟨out, hrun⟩ with hsame | ⟨id, created, hfresh, hadded, hcontract⟩
      · exact h.of_agreements hsame hlog
      · exact h.concat hadded hfresh (hcontract.symm.trans hstored) hlog
  | linkContract userId agreementId dto fetch =>
      rcases link_stores hrequest hrun with hsame | ⟨hstored, hout, hrows⟩
      · exact h.of_agreements hsame hlog
      · rw [linksSafely, hrequest] at hsafe
        rw [hrequest] at hstored
        obtain ⟨hconfirms, hfree⟩ := of_decide_eq_true hsafe dto.contractId hstored
        exact h.link hrows hfree ⟨userId, dto, fetch, hrequest, rfl, hconfirms, hout⟩ hlog
  | _ =>
      rw [hrequest] at hlinking
      cases hlinking

/-- Rows under one contract id, which all have one id, are at most one row. -/
theorem LinkInvariant.length_byContract (h : LinkInvariant s) (contractId : String) :
    (s.db.byContract contractId).length ≤ 1 := by
  have hunique : ((s.db.byContract contractId).map Agreement.id).Nodup :=
    List.Nodup.sublist (List.filter_sublist.map _) h.ids
  have hcontract : ∀ a ∈ s.db.byContract contractId, a ∈ s.db.agreements ∧
      a.contractId = some contractId := fun a ha => mem_byContract.mp ha
  match hrows : s.db.byContract contractId with
  | [] => exact Nat.zero_le 1
  | [_] => exact Nat.le_refl 1
  | a :: b :: rest =>
      rw [hrows] at hunique hcontract
      obtain ⟨ha, hca⟩ := hcontract a List.mem_cons_self
      obtain ⟨hb, hcb⟩ := hcontract b (List.mem_cons_of_mem a List.mem_cons_self)
      have hid := h.apart a ha b hb contractId hca hcb
      simp [hid] at hunique

/-- **Link integrity.** Where no creation stores a contract id, and no link one that another agreement
has or that Trustless Work has answered with other escrows for, the contract ids in the store are
confirmed and belong to one agreement each. -/
theorem contract_links
    (h : ((linkSystem F).restrict fun s o => linksSafely F s.db o = true).Reachable s) :
    LinkIntegrity s := by
  have hinvariant : LinkInvariant s := by
    apply StepSystem.invariant_of_steps (I := LinkInvariant) _ _ h
    · intro s hinit
      exact linkInvariant_init (F := F) hinit
    · intro s o s' _ hI hstep
      exact linkInvariant_step hI hstep.1 hstep.2
  refine ⟨hinvariant.confirmed, fun a ha b hb contractId hca hcb => ?_, hinvariant.length_byContract⟩
  exact hinvariant.ids.eq ha hb (hinvariant.apart a ha b hb contractId hca hcb)

/-- A lookup by contract id shows the agreement to everybody who may access it. -/
theorem LinkIntegrity.getByContractId (h : LinkIntegrity s) {a : Agreement}
    (ha : a ∈ s.db.agreements) {contractId : String} (hcontract : a.contractId = some contractId)
    (userId : String) :
    Ensures Answers (Agreements.getByContractId userId contractId) s.db fun out _ =>
      out = .ok ⟨some a, none⟩ ↔ mayAccess s.db userId a.id = true := by
  have hmem : a ∈ s.db.byContract contractId := mem_byContract.mpr ⟨ha, hcontract⟩
  have hrows : s.db.byContract contractId = [a] := by
    have hlength := Nat.le_antisymm (h.found contractId) (List.length_pos_of_mem hmem)
    obtain ⟨b, hb⟩ := List.length_eq_one_iff.mp hlength
    rw [hb] at hmem ⊢
    rw [List.mem_singleton.mp hmem]
  have hchecked : Ensures Answers (assertCanAccessAgreement userId a.id >>= fun _ =>
      .done (⟨some a, none⟩ : ContractLookup)) s.db fun out _ =>
        out = .ok ⟨some a, none⟩ ↔ mayAccess s.db userId a.id = true := by
    rw [Calls.ensures_bind]
    apply Ensures.mono assertCanAccessAgreement_all
    intro out db₂ hout
    rw [← hout]
    constructor
    · rintro _ rfl
      exact iff_of_true rfl rfl
    · rintro e rfl
      exact iff_of_false (fun hok => by cases hok) fun hok => by cases hok
  intro x db₁ hx
  obtain ⟨rfl, rfl⟩ := hx
  rw [hrows]
  exact hchecked

end Runs

/-! ## A link that is safe, and one that is not -/

/-- The link of a contract that Trustless Work has. -/
def linkOperation (agreementId contractId : String) : Operation :=
  ⟨1, .linkContract "payer" agreementId ⟨contractId, "P"⟩
    (answered (.object [("id", .string contractId)]))⟩

/-- The requests one after the other on the answering database, with their log. -/
def logAll (F : FloatArithmetic) (os : List Operation) (s : LinkLog) : LinkLog :=
  os.foldl (fun s o => ⟨(o.run F s.db).2, s.log ++ [⟨o, (o.run F s.db).1⟩]⟩) s

/-- Every request of the list can store a contract id and meets the guard where it starts. -/
def linksAll (F : FloatArithmetic) (guard : AgreementDb → Operation → Bool) :
    List Operation → AgreementDb → Bool
  | [], _ => true
  | o :: os, db => o.request.isLinking && guard db o && linksAll F guard os (o.run F db).2

theorem reachable_logAll {F : FloatArithmetic} (guard : AgreementDb → Operation → Bool)
    {os : List Operation} {s : LinkLog}
    (h : ((linkSystem F).restrict fun s o => guard s.db o = true).Reachable s)
    (hall : linksAll F guard os s.db = true) :
    ((linkSystem F).restrict fun s o => guard s.db o = true).Reachable (logAll F os s) := by
  induction os generalizing s with
  | nil => exact h
  | cons o os ih =>
      rw [linksAll, Bool.and_eq_true, Bool.and_eq_true] at hall
      obtain ⟨⟨hlinking, hguard⟩, hrest⟩ := hall
      exact ih (h.step ⟨hguard, hlinking, _, o.runs F s.db, rfl⟩) hrest

theorem contract_links_confirmed :
    LinkIntegrity (logAll exactArithmetic
      [createOperation "10" none splitTen, linkOperation "i" "C"] ⟨newStore, []⟩) := by
  apply contract_links (F := exactArithmetic)
  apply reachable_logAll
  · exact .init ⟨isNew_newStore, rfl⟩
  · decide +kernel

/-- `create` takes any contract id, also twice the same. -/
theorem not_contract_links :
    ¬ ∀ s, (linkSystem exactArithmetic).Reachable s → LinkIntegrity s := by
  intro h
  let twice := logAll exactArithmetic
    [createOperation "10" (some "C") splitTen, createOperation "10" (some "C") splitTen] ⟨newStore, []⟩
  have hreach : (linkSystem exactArithmetic).Reachable twice :=
    (reachable_logAll (fun _ _ => true) (.init ⟨isNew_newStore, rfl⟩)
      (by decide +kernel)).of_restrict
  have hfound := (h twice hreach).found "C"
  have hcount : (twice.db.byContract "C").length = 2 := by decide +kernel
  omega

end ThalosBackend.Agreements
