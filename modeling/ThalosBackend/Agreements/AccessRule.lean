import ThalosBackend.Agreements.AnsweringDb
import ThalosBackend.Agreements.AnsweredQueries

/-!
# The access rule of the agreements service

Whom `assertCanAccessAgreement` and `assertActorWallet` let pass, as a rule on the store. A user may
access an agreement who created it, or one of whose wallets created it or takes part in it, as long as
the user has a wallet at all.

A query that fails never lets anybody pass: the checks are exact when every query is answered, and on
the safe side when some fail.
-/

set_option autoImplicit false

namespace ThalosBackend.Agreements

open Js (nonEmpty)
open Calls (ask Ensures)

/-- The wallets of `user_wallets` that are the user's. -/
def linkedWallets (db : AgreementDb) (userId : String) : List String :=
  ((db.wallet.walletsOf userId).map Wallets.UserWallet.walletAddress).filter (· ≠ "")

/-- The user created the agreement, or the wallet did, or the wallet takes part in it. -/
def admitsThrough (db : AgreementDb) (userId : String) (a : Agreement) (wallet : String) : Bool :=
  a.createdBy = userId ∨ a.createdBy = wallet ∨
    ∃ p ∈ db.participants, p.agreementId = a.id ∧ p.walletAddress = wallet

/-- `assertCanAccessAgreement` lets the user pass. -/
def mayAccess (db : AgreementDb) (userId agreementId : String) : Bool :=
  (db.agreementAt agreementId).any fun a => (ownWallets db userId).any (admitsThrough db userId a)

theorem mem_ownWallets {db : AgreementDb} {userId wallet : String} :
    wallet ∈ ownWallets db userId ↔
      wallet ∈ linkedWallets db userId ∨ nonEmpty (db.wallet.publicKey userId) = some wallet := by
  simp [ownWallets, linkedWallets]

theorem mayAccess_iff {db : AgreementDb} {userId agreementId : String} {a : Agreement}
    (ha : db.agreementAt agreementId = some a) :
    mayAccess db userId agreementId = true ↔
      ∃ w ∈ ownWallets db userId, admitsThrough db userId a w = true := by
  rw [mayAccess, ha, Option.any_some, List.any_eq_true]

/-! ## Verdicts -/

/-- A check that lets the request pass, whatever is open in the answers. -/
def Grants (check : AgreementProgram Unit) (db : AgreementDb) : Prop :=
  Ensures Answers check db fun out _ => out = .ok ()

/-- A check that is decided by a condition on the store passes exactly under it. -/
theorem grants_iff {check : AgreementProgram Unit} {db : AgreementDb} {rule : Prop}
    (h : Ensures Answers check db fun out _ => out = .ok () ↔ rule) :
    Grants check db ↔ rule := by
  constructor
  · intro hgrants
    have hrun := Calls.runs_run (fun c db => AgreementDb.answers_answer c db) check db
    have hpass := Calls.ensures_iff.mp hgrants _ _ hrun
    exact (Calls.ensures_iff.mp h _ _ hrun).mp hpass
  · intro hrule
    exact h.mono fun out db' hout => hout.mpr hrule

/-! ## The wallets of a user -/

section Wallets

variable {db : AgreementDb} {userId : String}

theorem listWallets_mem {rows : List Wallets.UserWallet}
    (hperm : rows.Perm (db.wallet.walletsOf userId))
    {w : String} : w ∈ (rows.map Wallets.UserWallet.walletAddress).filter (· ≠ "") ↔
      w ∈ linkedWallets db userId := by
  rw [linkedWallets, List.mem_filter, List.mem_filter]
  exact and_congr_left fun _ => (hperm.map _).mem_iff

/-- The wallets found are the user's, and none is missed when both queries are answered. -/
theorem resolveUserWallets_own : Ensures Executes (resolveUserWallets userId) db fun out db' =>
    db' = db ∧ ∃ wallets, out = .ok wallets ∧ ∀ w ∈ wallets, w ∈ ownWallets db userId := by
  intro linked db₁ hlinked
  have hfound : db₁ = db ∧ ∀ w ∈ (match linked with
      | .ok rows => (rows.map Wallets.UserWallet.walletAddress).filter (· ≠ "")
      | .error _ => []), w ∈ linkedWallets db userId := by
    rcases hlinked with ⟨wallet, ⟨⟨rows, rfl, hperm, -⟩, rfl⟩, rfl⟩ | ⟨-, ⟨e, rfl⟩, rfl⟩
    · exact ⟨rfl, fun w hw => (listWallets_mem hperm).mp hw⟩
    · exact ⟨rfl, fun w hw => by cases hw⟩
  obtain ⟨rfl, hlinked⟩ := hfound
  intro legacy db₂ hlegacy
  have hkey : db₂ = db₁ ∧ ∀ w ∈ nonEmpty ((Wallets.Reply.data legacy).bind
      Wallets.AuthUser.walletPublicKey), nonEmpty (db₁.wallet.publicKey userId) = some w := by
    rcases hlegacy with ⟨wallet, ⟨rfl, rfl⟩, rfl⟩ | ⟨-, ⟨e, rfl⟩, rfl⟩
    · exact ⟨rfl, fun w hw => hw⟩
    · exact ⟨rfl, fun w hw => by cases hw⟩
  obtain ⟨rfl, hkey⟩ := hkey
  refine ⟨rfl, _, rfl, fun w hw => ?_⟩
  rw [List.mem_eraseDups, List.mem_append] at hw
  rw [mem_ownWallets]
  rcases hw with hw | hw
  · exact .inl (hlinked w hw)
  · exact .inr (hkey w (Option.mem_toList.mp hw))

theorem resolveUserWallets_all : Ensures Answers (resolveUserWallets userId) db fun out db' =>
    db' = db ∧ ∃ wallets, out = .ok wallets ∧ ∀ w, w ∈ wallets ↔ w ∈ ownWallets db userId := by
  intro linked db₁ hlinked
  obtain ⟨wallet, ⟨⟨rows, rfl, hperm, -⟩, rfl⟩, rfl⟩ := hlinked
  intro legacy db₂ hlegacy
  obtain ⟨wallet', ⟨rfl, rfl⟩, rfl⟩ := hlegacy
  refine ⟨rfl, _, rfl, fun w => ?_⟩
  rw [List.mem_eraseDups, List.mem_append, listWallets_mem hperm, mem_ownWallets, Option.mem_toList]
  rfl

end Wallets

/-! ## The checks -/

section Checks

variable {db : AgreementDb} {userId agreementId : String}

/-- A participant with one of the wallets, as the query finds it. -/
theorem findParticipant_found {wallets : List String} {x : Wallets.Reply (Option Participant)}
    {db' : AgreementDb} (h : Answers (.findParticipant agreementId wallets) db x db') :
    db' = db ∧ ((Wallets.Reply.data x).isSome = true ↔
      ∃ p ∈ db.participants, p.agreementId = agreementId ∧ p.walletAddress ∈ wallets) := by
  obtain ⟨hx, rfl⟩ := h
  refine ⟨rfl, ?_⟩
  split at hx
  · rename_i hnobody
    subst hx
    have hnone := List.filter_eq_nil_iff.mp hnobody
    constructor
    · intro hfalse
      cases hfalse
    · rintro ⟨p, hp, hagreement, hwallet⟩
      exact absurd (by simp [hagreement, hwallet]) (hnone p hp)
  · rename_i p ps hsomebody
    obtain ⟨q, hq, rfl⟩ := hx
    rw [← hsomebody, List.mem_filter] at hq
    refine ⟨fun _ => ⟨q, hq.1, by simpa using hq.2⟩, fun _ => rfl⟩

/-- With these wallets, the user passes through one of them. -/
theorem any_admitsThrough_iff {a : Agreement} {wallets : List String} (hne : wallets ≠ []) :
    (∃ w ∈ wallets, admitsThrough db userId a w = true) ↔
      (a.createdBy = userId ∨ a.createdBy ∈ wallets) ∨
        ∃ p ∈ db.participants, p.agreementId = a.id ∧ p.walletAddress ∈ wallets := by
  simp only [admitsThrough, decide_eq_true_eq]
  constructor
  · rintro ⟨w, hw, huser | hcreator | ⟨p, hp, hagreement, haddress⟩⟩
    · exact .inl (.inl huser)
    · exact .inl (.inr (hcreator ▸ hw))
    · exact .inr ⟨p, hp, hagreement, haddress ▸ hw⟩
  · rintro ((huser | hcreator) | ⟨p, hp, hagreement, haddress⟩)
    · obtain ⟨w, hw⟩ := List.exists_mem_of_ne_nil wallets hne
      exact ⟨w, hw, .inl huser⟩
    · exact ⟨a.createdBy, hcreator, .inr (.inl rfl)⟩
    · exact ⟨p.walletAddress, haddress, .inr (.inr ⟨p, hp, hagreement, rfl⟩)⟩

/-- With fewer of the user's wallets, fewer may pass; with all of them, everybody who may. -/
theorem userCanAccessAgreement_own {a : Agreement} :
    Ensures Executes (userCanAccessAgreement userId a.id a.createdBy) db fun out db' => db' = db ∧
      (out = .ok true → ∃ w ∈ ownWallets db userId, admitsThrough db userId a w = true) := by
  refine Calls.ensures_bind.mpr (resolveUserWallets_own.mono ?_)
  rintro out db₁ ⟨rfl, wallets, rfl, hown⟩
  refine ⟨fun wallets' hwallets => ?_, fun e he => by cases he⟩
  cases hwallets
  split
  · exact ⟨rfl, fun hout => by cases hout⟩
  · rename_i hempty
    have hne : wallets ≠ [] := by simpa using hempty
    have hsome : (∃ w ∈ wallets, admitsThrough db₁ userId a w = true) →
        ∃ w ∈ ownWallets db₁ userId, admitsThrough db₁ userId a w = true :=
      fun ⟨w, hw, hadmits⟩ => ⟨w, hown w hw, hadmits⟩
    split
    · rename_i hcreator
      exact ⟨rfl, fun _ => hsome ((any_admitsThrough_iff hne).mpr (.inl hcreator))⟩
    · refine Calls.ensures_ask fun parts db₂ hparts => ?_
      rcases hparts with hparts | ⟨-, ⟨e, rfl⟩, rfl⟩
      · obtain ⟨rfl, hfound⟩ := findParticipant_found hparts
        refine ⟨rfl, fun hout => hsome ((any_admitsThrough_iff hne).mpr (.inr ?_))⟩
        exact hfound.mp (Except.ok.inj hout)
      · exact ⟨rfl, fun hout => by cases hout⟩

theorem userCanAccessAgreement_all {a : Agreement} :
    Ensures Answers (userCanAccessAgreement userId a.id a.createdBy) db fun out db' => db' = db ∧
      ∃ allowed, out = .ok allowed ∧ (allowed = true ↔
        ∃ w ∈ ownWallets db userId, admitsThrough db userId a w = true) := by
  refine Calls.ensures_bind.mpr (resolveUserWallets_all.mono ?_)
  rintro out db₁ ⟨rfl, wallets, rfl, hall⟩
  refine ⟨fun wallets' hwallets => ?_, fun e he => by cases he⟩
  cases hwallets
  have hsame : (∃ w ∈ ownWallets db₁ userId, admitsThrough db₁ userId a w = true) ↔
      ∃ w ∈ wallets, admitsThrough db₁ userId a w = true := by
    simp only [hall]
  simp only [hsame]
  split
  · rename_i hempty
    obtain rfl : wallets = [] := by simpa using hempty
    exact ⟨rfl, false, rfl, by simp⟩
  · rename_i hempty
    have hne : wallets ≠ [] := by simpa using hempty
    simp only [any_admitsThrough_iff hne]
    split
    · rename_i hcreator
      exact ⟨rfl, true, rfl, by simp [hcreator]⟩
    · rename_i hcreator
      refine Calls.ensures_ask fun parts db₂ hparts => ?_
      obtain ⟨rfl, hfound⟩ := findParticipant_found hparts
      exact ⟨rfl, _, rfl, by rw [hfound]; simp [hcreator]⟩

/-- Whoever passes may access the agreement. -/
theorem assertCanAccessAgreement_own :
    Ensures Executes (assertCanAccessAgreement userId agreementId) db fun out db' => db' = db ∧
      (out = .ok () → mayAccess db userId agreementId = true) := by
  refine Calls.ensures_ask fun x db₁ hx => ?_
  have hfound : db₁ = db ∧ ∀ a, Wallets.Reply.data x = some a →
      db.agreementAt agreementId = some a := by
    rcases hx with ⟨rfl, rfl⟩ | ⟨-, ⟨e, rfl⟩, rfl⟩
    · exact ⟨rfl, fun a ha => (data_maybeSingle _).symm.trans ha⟩
    · exact ⟨rfl, fun a ha => by cases ha⟩
  obtain ⟨rfl, hfound⟩ := hfound
  split
  · exact ⟨rfl, fun hout => by cases hout⟩
  · rename_i a ha
    have hat := hfound a ha
    obtain rfl := (mem_of_agreementAt hat).2
    refine Calls.ensures_bind.mpr (userCanAccessAgreement_own.mono ?_)
    rintro out db₂ ⟨rfl, hout⟩
    refine ⟨fun allowed hallowed => ?_, fun e _ => ⟨rfl, fun he => by cases he⟩⟩
    split
    · rename_i hyes
      exact ⟨rfl, fun _ => (mayAccess_iff hat).mpr (hout (by rw [hallowed, hyes]))⟩
    · exact ⟨rfl, fun he => by cases he⟩

/-- When every query is answered, everybody passes who may access the agreement. -/
theorem assertCanAccessAgreement_all :
    Ensures Answers (assertCanAccessAgreement userId agreementId) db fun out _ =>
      out = .ok () ↔ mayAccess db userId agreementId = true := by
  refine Calls.ensures_ask fun x db₁ hx => ?_
  obtain ⟨rfl, rfl⟩ := hx
  rw [data_maybeSingle]
  split
  · rename_i hnone
    have hat : db₁.agreementAt agreementId = none := hnone
    simp [mayAccess, hat]
  · rename_i a ha
    have hat : db₁.agreementAt agreementId = some a := ha
    obtain rfl := (mem_of_agreementAt hat).2
    rw [mayAccess_iff hat]
    refine Calls.ensures_bind.mpr (userCanAccessAgreement_all.mono ?_)
    rintro out db₂ ⟨rfl, allowed, rfl, hallowed⟩
    refine ⟨fun _ hout => ?_, fun e he => by cases he⟩
    cases hout
    rw [← hallowed]
    split
    · rename_i hyes
      exact iff_of_true rfl hyes
    · rename_i hno
      exact iff_of_false nofun hno

/-- Whoever passes as the wallet owns it. -/
theorem assertActorWallet_own {actorWallet : String} :
    Ensures Executes (assertActorWallet userId actorWallet) db fun out db' => db' = db ∧
      (out = .ok () → actorWallet ∈ ownWallets db userId) := by
  refine Calls.ensures_bind.mpr (resolveUserWallets_own.mono ?_)
  rintro out db₁ ⟨rfl, wallets, rfl, hown⟩
  refine ⟨fun wallets' hwallets => ?_, fun e he => by cases he⟩
  cases hwallets
  split
  · exact ⟨rfl, fun hout => by cases hout⟩
  · split
    · exact ⟨rfl, fun hout => by cases hout⟩
    · rename_i hmem
      exact ⟨rfl, fun _ => hown _ (not_not.mp hmem)⟩

/-- When every query is answered, a wallet is accepted exactly when the user owns it. -/
theorem assertActorWallet_all {actorWallet : String} :
    Ensures Answers (assertActorWallet userId actorWallet) db fun out _ =>
      out = .ok () ↔ actorWallet ∈ ownWallets db userId := by
  refine Calls.ensures_bind.mpr (resolveUserWallets_all.mono ?_)
  rintro out db₁ ⟨rfl, wallets, rfl, hall⟩
  refine ⟨fun wallets' hwallets => ?_, fun e he => by cases he⟩
  cases hwallets
  rw [← hall]
  split
  · rename_i hempty
    obtain rfl : wallets = [] := by simpa using hempty
    exact iff_of_false nofun (by simp)
  · split
    · rename_i hmem
      exact iff_of_false nofun hmem
    · rename_i hmem
      exact iff_of_true rfl (not_not.mp hmem)

end Checks

end ThalosBackend.Agreements
