import ThalosBackend.Agreements.Interleaving
import ThalosBackend.Library.HeldReplies

/-!
# Replies that stand

What the checks of the services are told is used some queries later, when others may have written.
`Tells` is what of it can be relied on: nobody changes the wallets of a user here, a participant
stays, an agreement keeps its creator, and a dispute keeps its agreement and its opener.

An id names the same agreement only as long as the database does not give it away again. `create`
deletes what it could not finish, so `freshSystem` asks that a new row gets no id that a request in
progress has been told.
-/

set_option autoImplicit false

namespace ThalosBackend.Agreements

open Js (FloatArithmetic)
open Calls (Held historyOf)

/-! ## What a reply says of later stores -/

/-- What a reply says of every store from then on. -/
def Tells : (c : AgreementCall) → c.reply → AgreementDb → Prop
  | .wallet (.listWallets userId), .ok rows, db => ∀ row ∈ rows, row ∈ db.wallet.walletsOf userId
  | .wallet (.readAuthUser userId), .ok user, db => user = db.wallet.authUsers userId
  | .findAgreement id, .ok (some a), db => ∀ b ∈ db.agreements, b.id = id → b.createdBy = a.createdBy
  | .getAgreement id, .ok a, _ => a.id = id
  | .insertAgreement new, .ok a, db =>
      ∀ b ∈ db.agreements, b.id = a.id → b.createdBy = new.createdBy
  | .findParticipant id wallets, .ok (some p), db =>
      p ∈ db.participants ∧ p.agreementId = id ∧ p.walletAddress ∈ wallets
  | .findDispute id, .ok (some d), db => (∃ d' ∈ db.disputes, d'.id = id) ∧
      ∀ d' ∈ db.disputes, d'.id = id → d'.agreementId = d.agreementId ∧ d'.openedBy = d.openedBy
  | _, _, _ => True

/-- The ids of agreements that a request has been told. -/
def toldIds : QueryHistory → List String
  | [] => []
  | ⟨c, x⟩ :: history =>
    match c, x with
    | .findAgreement id, .ok (some _) => id :: toldIds history
    | .insertAgreement _, .ok a => a.id :: toldIds history
    | _, _ => toldIds history

theorem toldIds_subset (e : (c : AgreementCall) × c.reply) (history : QueryHistory) :
    toldIds history ⊆ toldIds (e :: history) := by
  obtain ⟨c, x⟩ := e
  intro id hid
  unfold toldIds
  split
  · exact List.mem_cons_of_mem _ hid
  · exact List.mem_cons_of_mem _ hid
  · exact hid

theorem toldIds_found {id : String} {a : Agreement} {history : QueryHistory}
    (h : ⟨.findAgreement id, .ok (some a)⟩ ∈ history) : id ∈ toldIds history := by
  induction history with
  | nil => cases h
  | cons e history ih =>
      rcases List.mem_cons.mp h with rfl | h
      · exact List.mem_cons_self
      · exact toldIds_subset e history (ih h)

theorem toldIds_inserted {new : NewAgreement} {a : Agreement} {history : QueryHistory}
    (h : ⟨.insertAgreement new, .ok a⟩ ∈ history) : a.id ∈ toldIds history := by
  induction history with
  | nil => cases h
  | cons e history ih =>
      rcases List.mem_cons.mp h with rfl | h
      · exact List.mem_cons_self
      · exact toldIds_subset e history (ih h)

/-! ## What queries leave standing -/

/-- The rows of a later store are those there were, in what replies rely on, or have new ids. -/
structure Continues (db db' : AgreementDb) : Prop where
  wallet : db'.wallet = db.wallet
  participants : ∀ p ∈ db.participants, p ∈ db'.participants
  agreements : ∀ b ∈ db'.agreements, (∀ a ∈ db.agreements, a.id ≠ b.id) ∨
    ∃ a ∈ db.agreements, a.id = b.id ∧ b.createdBy = a.createdBy
  disputes : ∀ d' ∈ db'.disputes, (∀ d ∈ db.disputes, d.id ≠ d'.id) ∨
    ∃ d ∈ db.disputes, d.id = d'.id ∧ d'.agreementId = d.agreementId ∧ d'.openedBy = d.openedBy
  keepsDisputes : ∀ d ∈ db.disputes, ∃ d' ∈ db'.disputes, d'.id = d.id

theorem Continues.refl (db : AgreementDb) : Continues db db where
  wallet := rfl
  participants := fun _ hp => hp
  agreements := fun b hb => .inr ⟨b, hb, rfl, rfl⟩
  disputes := fun d hd => .inr ⟨d, hd, rfl, rfl, rfl⟩
  keepsDisputes := fun d hd => ⟨d, hd, rfl⟩

/-- The query does not write the tables of wallets. -/
def AgreementCall.keepsWallets : AgreementCall → Bool
  | .wallet c => (AgreementCall.wallet c).isQuiet
  | _ => true

section Queries

variable {c : AgreementCall} {db db' : AgreementDb} {x : c.reply}

theorem Answers.agreements_continue (h : Answers c db x db') :
    ∀ b ∈ db'.agreements, (∀ a ∈ db.agreements, a.id ≠ b.id) ∨
      ∃ a ∈ db.agreements, a.id = b.id ∧ b.createdBy = a.createdBy := by
  intro b hb
  cases c with
  | insertAgreement new =>
      obtain ⟨id, created, hfree, -, rfl⟩ := h
      rcases List.mem_append.mp hb with hold | hnew
      · exact .inr ⟨b, hold, rfl, rfl⟩
      · obtain rfl := List.mem_singleton.mp hnew
        exact .inl hfree
  | deleteAgreement id =>
      obtain ⟨-, rfl⟩ := h
      exact .inr ⟨b, (List.mem_filter.mp hb).1, rfl, rfl⟩
  | _ =>
      rcases h.row rfl hb with ⟨hold, -⟩ | ⟨a, ha, updates, -, rfl⟩
      · exact .inr ⟨b, hold, rfl, rfl⟩
      · exact .inr ⟨a, mem_of_hits ha, rfl, rfl⟩

theorem Answers.disputes_continue (h : Answers c db x db') :
    (∀ d' ∈ db'.disputes, (∀ d ∈ db.disputes, d.id ≠ d'.id) ∨
      ∃ d ∈ db.disputes, d.id = d'.id ∧ d'.agreementId = d.agreementId ∧
        d'.openedBy = d.openedBy) ∧
    ∀ d ∈ db.disputes, ∃ d' ∈ db'.disputes, d'.id = d.id := by
  have hsame : db'.disputes = db.disputes →
      (∀ d' ∈ db'.disputes, (∀ d ∈ db.disputes, d.id ≠ d'.id) ∨
        ∃ d ∈ db.disputes, d.id = d'.id ∧ d'.agreementId = d.agreementId ∧
          d'.openedBy = d.openedBy) ∧
      ∀ d ∈ db.disputes, ∃ d' ∈ db'.disputes, d'.id = d.id := by
    intro heq
    rw [heq]
    exact ⟨(Continues.refl db).disputes, (Continues.refl db).keepsDisputes⟩
  cases c with
  | insertDispute new =>
      obtain ⟨id, created, hfree, -, rfl⟩ := h
      constructor
      · intro d' hd'
        rcases List.mem_append.mp hd' with hold | hnew
        · exact .inr ⟨d', hold, rfl, rfl, rfl⟩
        · obtain rfl := List.mem_singleton.mp hnew
          exact .inl hfree
      · intro d hd
        exact ⟨d, List.mem_append_left _ hd, rfl⟩
  | updateDispute id updates =>
      obtain ⟨-, rfl⟩ := h
      constructor
      · intro d' hd'
        -- an update sets neither the agreement nor who opened the dispute
        obtain ⟨d, hd, rfl⟩ := Table.mem_updateWhere.mp hd'
        refine .inr ⟨d, hd, ?_⟩
        split
        · exact ⟨rfl, rfl, rfl⟩
        · exact ⟨rfl, rfl, rfl⟩
      · intro d hd
        refine ⟨_, Table.mem_updateWhere.mpr ⟨d, hd, rfl⟩, ?_⟩
        split
        · rfl
        · rfl
  | wallet c' =>
      obtain ⟨wallet, -, rfl⟩ := h
      exact hsame rfl
  | insertAgreement new =>
      obtain ⟨id, created, -, -, rfl⟩ := h
      exact hsame rfl
  | insertResolution new =>
      obtain ⟨id, created, -, -, rfl⟩ := h
      exact hsame rfl
  | changeStatusByContract contractId target updates =>
      simp only [Answers] at h
      split at h
      · exact hsame (h.2 ▸ rfl)
      · exact hsame (h.2 ▸ rfl)
      · exact hsame (h.2 ▸ rfl)
  | _ => exact hsame (h.2 ▸ rfl)

theorem Answers.wallet_eq (h : Answers c db x db') (hc : c.keepsWallets = true) :
    db'.wallet = db.wallet := by
  cases c with
  | wallet c' => exact (Executes.sameTables (.inl h) hc).wallet
  | insertAgreement new =>
      obtain ⟨id, created, -, -, rfl⟩ := h
      rfl
  | insertDispute new =>
      obtain ⟨id, created, -, -, rfl⟩ := h
      rfl
  | insertResolution new =>
      obtain ⟨id, created, -, -, rfl⟩ := h
      rfl
  | changeStatusByContract contractId target updates =>
      simp only [Answers] at h
      split at h
      · rw [h.2]
      · rw [h.2]; rfl
      · rw [h.2]
  | _ => exact h.2 ▸ rfl

theorem Answers.participants_continue (h : Answers c db x db') :
    ∀ p ∈ db.participants, p ∈ db'.participants := by
  intro p hp
  cases c with
  | wallet c' =>
      obtain ⟨wallet, -, rfl⟩ := h
      exact hp
  | insertParticipants rows =>
      obtain ⟨-, rfl⟩ := h
      exact List.mem_append_left _ hp
  | insertAgreement new =>
      obtain ⟨id, created, -, -, rfl⟩ := h
      exact hp
  | insertDispute new =>
      obtain ⟨id, created, -, -, rfl⟩ := h
      exact hp
  | insertResolution new =>
      obtain ⟨id, created, -, -, rfl⟩ := h
      exact hp
  | changeStatusByContract contractId target updates =>
      simp only [Answers] at h
      split at h
      · exact h.2 ▸ hp
      · exact h.2 ▸ hp
      · exact h.2 ▸ hp
  | _ => exact h.2 ▸ hp

/-- A query leaves standing what replies rely on. -/
theorem Executes.continues (h : Executes c db x db') (hc : c.keepsWallets = true) :
    Continues db db' := by
  rcases h with h | ⟨-, -, rfl⟩
  · exact ⟨h.wallet_eq hc, h.participants_continue, h.agreements_continue, h.disputes_continue.1,
      h.disputes_continue.2⟩
  · exact .refl _

/-- An answer is right about the store it leaves. -/
theorem Answers.tells (h : Answers c db x db') : Tells c x db' := by
  cases c with
  | wallet c' =>
      obtain ⟨wallet, h, rfl⟩ := h
      cases c' with
      | listWallets userId =>
          obtain ⟨⟨rows, rfl, hperm, -⟩, rfl⟩ := h
          exact fun row hrow => hperm.mem_iff.mp hrow
      | readAuthUser userId =>
          obtain ⟨rfl, rfl⟩ := h
          exact rfl
      | _ => trivial
  | findAgreement id =>
      obtain ⟨hx, rfl⟩ := h
      rcases x with e | ⟨_ | a⟩
      · trivial
      · trivial
      · -- `maybeSingle` has found one row, so every row under the id is this one
        intro b hb hid
        rw [eq_of_filter_eq_singleton (maybeSingle_eq_ok hx.symm) hb (by simpa using hid)]
  | getAgreement id =>
      obtain ⟨hx, rfl⟩ := h
      split at hx
      · rename_i a hrows
        subst hx
        -- `single` answers with a row only when it is the only one
        have hmem : a ∈ db'.agreements.filter fun a => a.id = id := by
          rw [hrows]
          exact List.mem_singleton_self a
        have hid : a.id = id := by simpa using (List.mem_filter.mp hmem).2
        exact hid
      · subst hx
        trivial
  | insertAgreement new =>
      obtain ⟨id, created, hfree, rfl, rfl⟩ := h
      intro b hb hid
      rcases List.mem_append.mp hb with hold | hnew
      · -- an older row would have the id before, which is fresh
        exact absurd hid (hfree b hold)
      · rw [List.mem_singleton.mp hnew]
        rfl
  | findParticipant agreementId wallets =>
      obtain ⟨hx, rfl⟩ := h
      split at hx
      · subst hx
        trivial
      · rename_i p ps hrows
        obtain ⟨q, hq, rfl⟩ := hx
        rw [← hrows, List.mem_filter] at hq
        exact ⟨hq.1, by simpa using hq.2⟩
  | findDispute id =>
      obtain ⟨hx, rfl⟩ := h
      rcases x with e | ⟨_ | d⟩
      · trivial
      · trivial
      · have hrows := maybeSingle_eq_ok hx.symm
        have hmem : d ∈ db'.disputes.filter fun d => d.id = id := by
          rw [hrows]
          exact List.mem_singleton_self d
        obtain ⟨hd, hid⟩ := List.mem_filter.mp hmem
        refine ⟨⟨d, hd, by simpa using hid⟩, fun d' hd' hid' => ?_⟩
        rw [eq_of_filter_eq_singleton hrows hd' (by simpa using hid')]
        exact ⟨rfl, rfl⟩
  | _ => trivial

theorem tells_error (c : AgreementCall) (e : Wallets.DbError) (db : AgreementDb) :
    Tells c (.error e) db := by
  cases c with
  | wallet c' => cases c' <;> trivial
  | _ => trivial

theorem Executes.tells (h : Executes c db x db') : Tells c x db' := by
  rcases h with h | ⟨-, ⟨e, rfl⟩, -⟩
  · exact h.tells
  · exact tells_error c e db'

/-- What was said before a query is right after it, if a new row gets an id that was not told. -/
theorem Continues.held {history : QueryHistory} (h : Continues db db')
    (hfresh : ∀ b ∈ db'.agreements, (∀ a ∈ db.agreements, a.id ≠ b.id) → b.id ∉ toldIds history)
    (hheld : Held Tells history db) : Held Tells history db' := by
  -- a row under a told id has been there, with the same creator
  have hsame : ∀ id ∈ toldIds history, ∀ b ∈ db'.agreements, b.id = id →
      ∃ a ∈ db.agreements, a.id = id ∧ b.createdBy = a.createdBy := by
    rintro id hid b hb rfl
    rcases h.agreements b hb with hnew | hold
    · exact absurd hid (hfresh b hb hnew)
    · exact hold
  rintro ⟨c, x⟩ he
  have htold := hheld _ he
  cases c with
  | wallet c' =>
      cases c' with
      | listWallets userId =>
          cases x with
          | ok rows =>
              intro row hrow
              rw [h.wallet]
              exact htold row hrow
          | error e => trivial
      | readAuthUser userId =>
          cases x with
          | ok user =>
              show user = db'.wallet.authUsers userId
              rw [h.wallet]
              exact htold
          | error e => trivial
      | _ => trivial
  | findAgreement id =>
      rcases x with e | ⟨_ | a⟩
      · trivial
      · trivial
      · intro b hb hid
        obtain ⟨a', ha', hid', hcreator⟩ := hsame id (toldIds_found he) b hb hid
        exact hcreator.trans (htold a' ha' hid')
  | getAgreement id =>
      cases x with
      | ok a => exact htold
      | error e => trivial
  | insertAgreement new =>
      cases x with
      | error e => trivial
      | ok a =>
          intro b hb hid
          obtain ⟨a', ha', hid', hcreator⟩ := hsame a.id (toldIds_inserted he) b hb hid
          exact hcreator.trans (htold a' ha' hid')
  | findParticipant agreementId wallets =>
      rcases x with e | ⟨_ | p⟩
      · trivial
      · trivial
      · exact ⟨h.participants p htold.1, htold.2⟩
  | findDispute id =>
      rcases x with e | ⟨_ | d⟩
      · trivial
      · trivial
      · obtain ⟨⟨d₀, hd₀, rfl⟩, hall⟩ := htold
        refine ⟨h.keepsDisputes d₀ hd₀, fun d' hd' hid' => ?_⟩
        rcases h.disputes d' hd' with hnew | ⟨d₁, hd₁, hid₁, hagreement, hopener⟩
        · exact absurd hid'.symm (hnew d₀ hd₀)
        · obtain ⟨hagreement₁, hopener₁⟩ := hall d₁ hd₁ (hid₁.trans hid')
          exact ⟨hagreement.trans hagreement₁, hopener.trans hopener₁⟩
  | _ => trivial

end Queries

/-! ## Interleavings that give no id twice -/

section System

variable (F : FloatArithmetic) (T : Traffic)

variable {T} in
/-- A new agreement gets an id that no request has been told. -/
def FreshIds (c c' : AgreementConfig T) : Prop :=
  ∀ b ∈ c'.shared.db.agreements, (∀ a ∈ c.shared.db.agreements, a.id ≠ b.id) →
    ∀ t k, c.threads t = some k → b.id ∉ toldIds (historyOf k.rest)

/-- The interleavings over a database that gives no id twice. -/
def freshSystem : StepSystem (AgreementConfig T) (AgreementLabel T) where
  init := (interleavingSystem F T).init
  step c l c' := (interleavingSystem F T).step c l c' ∧ FreshIds c c'

variable {F T} {c c' : AgreementConfig T} {l : AgreementLabel T}

/-- The next query of the request adds no agreement. -/
def AddsNoAgreement (c : AgreementConfig T) : AgreementLabel T → Prop
  | .act t _ => ∀ req call history cont, c.threads t = some ⟨req, .call (call, history) cont⟩ →
      ∀ new, call ≠ .insertAgreement new
  | _ => True

/-- Where nobody adds an agreement, no id is given twice. -/
theorem freshIds_of_addsNoAgreement (hguard : AddsNoAgreement c l)
    (hstep : (interleavingSystem F T).step c l c') : FreshIds c c' := by
  intro b hb hnew
  have hold : ∃ a ∈ c.shared.db.agreements, a.id = b.id := by
    cases Calls.step_cases hstep with
    | start t req hfree => exact ⟨b, hb, rfl⟩
    | act t act req call cont x s hk hexec =>
        obtain ⟨call, history⟩ := call
        have hcall := hguard req call history cont hk
        rcases hexec.1.executes with h | ⟨-, -, hsame⟩
        · cases call with
          | insertAgreement new => exact absurd rfl (hcall new)
          | deleteAgreement id =>
              obtain ⟨-, hdb⟩ := h
              rw [hdb] at hb
              exact ⟨b, (List.mem_filter.mp hb).1, rfl⟩
          | _ =>
              rcases Answers.row h rfl hb with ⟨hkept, -⟩ | ⟨a, ha, updates, -, rfl⟩
              · exact ⟨b, hkept, rfl⟩
              · exact ⟨a, mem_of_hits ha, rfl⟩
        · rw [hsame] at hb
          exact ⟨b, hb, rfl⟩
    | env b => exact nomatch b
  obtain ⟨a, ha, hid⟩ := hold
  exact absurd hid (hnew a ha)

theorem fresh_of_guarded
    (h : ((interleavingSystem F T).restrict AddsNoAgreement).Reachable c) :
    (freshSystem F T).Reachable c := by
  induction h with
  | init hinit => exact .init hinit
  | step _ hstep ih => exact ih.step ⟨hstep.2, freshIds_of_addsNoAgreement hstep.1 hstep.2⟩

end System

end ThalosBackend.Agreements
