import ThalosBackend.Agreements.AgreementListing

/-!
# What is listed can be opened

The list of a user against the check of a single agreement. The check lets the creator pass who is
named by the user id; the list only goes through the wallets. So every listed agreement can be opened,
and what can be opened is listed unless nothing but the user id leads to it.
-/

set_option autoImplicit false

namespace ThalosBackend.Agreements

open Calls (Ensures)

variable {db : AgreementDb} {userId : String} {a : Agreement}

/-- Nothing but the user id leads to the agreement: the user has a wallet and is named as the creator,
and none of the user's wallets created the agreement or takes part in it. -/
def onlyByUserId (db : AgreementDb) (userId : String) (a : Agreement) : Bool :=
  a.createdBy = userId ∧ ownWallets db userId ≠ [] ∧ reachedBy db (ownWallets db userId) a = false

/-- What the check decides is what the list goes by, but for the creator's user id. -/
theorem admitted_iff : (∃ w ∈ ownWallets db userId, admitsThrough db userId a w = true) ↔
    reachedBy db (ownWallets db userId) a = true ∨ onlyByUserId db userId a = true := by
  by_cases hempty : ownWallets db userId = []
  · simp [hempty, reachedBy, onlyByUserId]
  · have honly : onlyByUserId db userId a = true ↔
        a.createdBy = userId ∧ reachedBy db (ownWallets db userId) a = false := by
      simp [onlyByUserId, hempty]
    rw [any_admitsThrough_iff hempty, honly, or_assoc]
    cases hreached : reachedBy db (ownWallets db userId) a with
    | true =>
        rw [reachedBy, decide_eq_true_eq] at hreached
        exact iff_of_true (.inr hreached) (.inl rfl)
    | false =>
        rw [reachedBy, decide_eq_false_iff_not] at hreached
        simp [hreached]

/-- The agreements have their own ids, none of them empty: `id UUID PRIMARY KEY`. -/
structure AgreementIds (db : AgreementDb) : Prop where
  unique : Table.Unique Agreement.id db.agreements
  nonEmpty : ∀ a ∈ db.agreements, a.id ≠ ""

/-- An agreement stands once among the listed ones if a wallet reaches it, and not at all
otherwise. -/
theorem filter_listedAgreements (ids : AgreementIds db) (ha : a ∈ db.agreements) :
    (listedAgreements db (ownWallets db userId) none none).filter (fun b => b.id = a.id) =
      if reachedBy db (ownWallets db userId) a = true then [a] else [] := by
  have hid := ids.nonEmpty a ha
  rw [listedAgreements, List.filter_comm, ids.unique.filter_key ha, List.filter_singleton]
  simp [hid, matchesFilter, Js.nonEmpty]

/-- The unfiltered list of the user holds these rows under the id of the agreement. -/
def Lists (db : AgreementDb) (userId : String) (a : Agreement) (hits : List Agreement) : Prop :=
  Ensures ListingCall.Answers (list userId {}) db fun out _ =>
    ∃ rows, out = .ok ⟨rows, none⟩ ∧ rows.filter (fun b => b.id = a.id) = hits

theorem lists_iff (ids : AgreementIds db) (ha : a ∈ db.agreements) {hits : List Agreement} :
    Lists db userId a hits ↔
      hits = if reachedBy db (ownWallets db userId) a = true then [a] else [] := by
  have hlist : Ensures ListingCall.Answers (list userId {}) db fun out _ => ∃ rows,
      out = .ok ⟨rows, none⟩ ∧ rows.filter (fun b => b.id = a.id) =
        if reachedBy db (ownWallets db userId) a = true then [a] else [] := by
    refine (list_all ids.unique {}).mono ?_
    rintro out db' ⟨rows, rfl, hperm, -⟩
    have hhits := hperm.filter fun b => b.id = a.id
    rw [filter_listedAgreements ids ha] at hhits
    refine ⟨rows, rfl, ?_⟩
    -- at most one row: its order is no question
    by_cases hreached : reachedBy db (ownWallets db userId) a = true
    · rw [if_pos hreached] at hhits ⊢
      exact List.perm_singleton.mp hhits
    · rw [if_neg hreached] at hhits ⊢
      exact hhits.eq_nil
  constructor
  · intro h
    have hrun := Calls.runs_run AgreementDb.answers_answerListing (list userId {}) db
    obtain ⟨rows, hrows, hhits⟩ := Calls.ensures_iff.mp h _ _ hrun
    obtain ⟨rows', hrows', hhits'⟩ := Calls.ensures_iff.mp hlist _ _ hrun
    rw [hrows] at hrows'
    cases hrows'
    exact hhits.symm.trans hhits'
  · rintro rfl
    exact hlist

/-- Whoever may open an agreement finds it once in the list, and nobody else finds it, exactly when
it is not the user id alone that leads to it. -/
theorem list_agrees (ids : AgreementIds db) (userId : String) (ha : a ∈ db.agreements) :
    (Ensures Answers (userCanAccessAgreement userId a.id a.createdBy) db fun granted _ =>
      (granted = .ok true → Lists db userId a [a]) ∧ (granted ≠ .ok true → Lists db userId a [])) ↔
      onlyByUserId db userId a = false := by
  have hgranted : Ensures Answers (userCanAccessAgreement userId a.id a.createdBy) db
      fun granted _ => granted = .ok true ↔
        reachedBy db (ownWallets db userId) a = true ∨ onlyByUserId db userId a = true := by
    refine userCanAccessAgreement_all.mono ?_
    rintro out db' ⟨rfl, allowed, rfl, hallowed⟩
    rw [← admitted_iff, ← hallowed, Except.ok.injEq]
  simp only [lists_iff ids ha]
  constructor
  · intro h
    -- the tables as they stand give one run of the check, and both facts hold of it
    have hrun := Calls.runs_run (fun c db => AgreementDb.answers_answer c db)
      (userCanAccessAgreement userId a.id a.createdBy) db
    obtain ⟨hyes, -⟩ := Calls.ensures_iff.mp h _ _ hrun
    have hiff := Calls.ensures_iff.mp hgranted _ _ hrun
    by_contra honly
    rw [Bool.not_eq_false] at honly
    have hlisted := hyes (hiff.mpr (.inr honly))
    rw [onlyByUserId, decide_eq_true_eq] at honly
    rw [honly.2.2] at hlisted
    cases hlisted
  · intro honly
    refine hgranted.mono fun granted db' hiff => ?_
    rw [honly] at hiff
    constructor
    · intro hyes
      rw [if_pos ((hiff.mp hyes).resolve_right Bool.false_ne_true)]
    · intro hno
      rw [if_neg fun hreached => hno (hiff.mpr (.inl hreached))]

/-- An agreement under a user id, which no wallet of the user has to do with. -/
def underUserId : Agreement where
  id := "a1"
  contractId := none
  title := "Site"
  description := none
  amount := "10"
  asset := some "USDC"
  status := some "pending"
  agreementType := some "single"
  milestones := []
  metadata := .object []
  createdBy := "payer"
  fundedAt := none
  completedAt := none
  createdAt := 0
  updatedAt := 0

theorem ids_singleton {a : Agreement} (hid : a.id ≠ "") :
    AgreementIds (storeWith twoParties [a] []) where
  unique := List.nodup_singleton _
  nonEmpty := List.forall_mem_singleton.mpr hid

/-- `payee` has created an agreement and takes part in it twice, beside one of others. -/
def payeeAgreement : Agreement := { underUserId with id := "a2", createdBy := "Q" }

def payeeAgreements : AgreementDb :=
  { storeWith twoParties [underUserId, payeeAgreement] [] with
    participants := [⟨"a2", "P", "payer"⟩, ⟨"a2", "Q", "payee"⟩, ⟨"a2", "Q", "approver"⟩] }

/-- Every query finds the agreement, and it is listed once. -/
theorem list_agrees_payee :
    payeeAgreements.participationsOf (ownWallets payeeAgreements "payee") = ["a2", "a2"] ∧
      payeeAgreements.createdRowsOf (ownWallets payeeAgreements "payee") = ["a2"] ∧
      Lists payeeAgreements "payee" payeeAgreement [payeeAgreement] := by
  have hids : AgreementIds payeeAgreements := by
    refine ⟨?_, ?_⟩
    · rw [Table.Unique]
      decide +kernel
    · decide +kernel
  have hmem : payeeAgreement ∈ payeeAgreements.agreements :=
    List.mem_cons_of_mem _ (List.mem_singleton_self _)
  have hall := (list_agrees hids "payee" hmem).mpr (by decide +kernel)
  have hrun := Calls.runs_run (fun c db => AgreementDb.answers_answer c db)
    (userCanAccessAgreement "payee" "a2" "Q") payeeAgreements
  obtain ⟨hyes, -⟩ := Calls.ensures_iff.mp hall _ _ hrun
  exact ⟨by decide +kernel, by decide +kernel, hyes (by decide +kernel)⟩

/-- `payer` may open the agreement under the own user id, and does not find it in the list. -/
theorem not_list_agrees :
    ¬ ∀ (db : AgreementDb) (userId : String) (a : Agreement), AgreementIds db → a ∈ db.agreements →
      Ensures Answers (userCanAccessAgreement userId a.id a.createdBy) db fun granted _ =>
        (granted = .ok true → Lists db userId a [a]) ∧
          (granted ≠ .ok true → Lists db userId a []) := by
  intro h
  have hstore := h (storeWith twoParties [underUserId] []) "payer" underUserId
    (ids_singleton (by decide)) List.mem_cons_self
  have hrun := Calls.runs_run (fun c db => AgreementDb.answers_answer c db)
    (userCanAccessAgreement "payer" "a1" "payer") (storeWith twoParties [underUserId] [])
  obtain ⟨hyes, -⟩ := Calls.ensures_iff.mp hstore _ _ hrun
  have hlists := hyes (by decide +kernel)
  rw [lists_iff (ids_singleton (by decide)) List.mem_cons_self] at hlists
  have hunreached : reachedBy (storeWith twoParties [underUserId] [])
      (ownWallets (storeWith twoParties [underUserId] []) "payer") underUserId = false := by
    decide +kernel
  rw [hunreached] at hlists
  cases hlists

end ThalosBackend.Agreements
