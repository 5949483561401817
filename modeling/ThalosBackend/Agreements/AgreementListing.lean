import Mathlib.Data.List.Sort
import ThalosBackend.Agreements.AccessRule

/-!
# The lists of agreements

`AgreementsService.list`, `listByWallet` and `getByContractId`. A list is put together from the
agreements a wallet takes part in and the agreements a wallet created; then the rows are read by their
ids. `ListingCall` adds these three queries to the ones the other operations make.
-/

set_option autoImplicit false

namespace ThalosBackend.Agreements

open Js (nonEmpty)
open Calls (ask)
open Wallets (Reply)

/-! ## Queries -/

/-- The queries of the lists. -/
inductive ListingCall where
  | agreement (c : AgreementCall)
  /-- `agreement_id` of the participants with one of the wallets. -/
  | participations (wallets : List String)
  /-- `id` of the agreements that one of the wallets created. -/
  | createdRows (wallets : List String)
  /-- The agreements with one of the ids, by `created_at DESC`. -/
  | agreementsByIds (ids : List String) (status agreementType : Option String)
  deriving DecidableEq

/-- The data a query is answered with. -/
abbrev ListingCall.answer : ListingCall → Type
  | .agreement c => c.answer
  | .participations _ | .createdRows _ => List String
  | .agreementsByIds _ _ _ => List Agreement

/-- What a query is answered with. -/
abbrev ListingCall.reply (c : ListingCall) : Type := Reply c.answer

/-- A filter that is set, as `.eq(column, value)`. -/
def matchesFilter (filter column : Option String) : Bool :=
  ∀ value ∈ nonEmpty filter, column = some value

namespace AgreementDb

/-- The ids of the agreements that the wallets take part in. -/
def participationsOf (db : AgreementDb) (wallets : List String) : List String :=
  (db.participants.filter fun p => p.walletAddress ∈ wallets).map Participant.agreementId

/-- The ids of the agreements that the wallets created. -/
def createdRowsOf (db : AgreementDb) (wallets : List String) : List String :=
  (db.agreements.filter fun a => a.createdBy ∈ wallets).map Agreement.id

/-- The agreements under the ids that pass the filters. -/
def agreementsByIds (db : AgreementDb) (ids : List String) (status agreementType : Option String) :
    List Agreement :=
  db.agreements.filter fun a =>
    a.id ∈ ids ∧ matchesFilter status a.status ∧ matchesFilter agreementType a.agreementType

end AgreementDb

/-- What the database does with a query of the lists that does not fail. Ids come in any order, and
so do agreements of one time. -/
def ListingCall.Answers : (c : ListingCall) → AgreementDb → c.reply → AgreementDb → Prop
  | .agreement c, db, x, db' => Agreements.Answers c db x db'
  | .participations wallets, db, x, db' =>
      (∃ ids, x = .ok ids ∧ ids.Perm (db.participationsOf wallets)) ∧ db' = db
  | .createdRows wallets, db, x, db' =>
      (∃ ids, x = .ok ids ∧ ids.Perm (db.createdRowsOf wallets)) ∧ db' = db
  | .agreementsByIds ids status agreementType, db, x, db' =>
      (∃ rows, x = .ok rows ∧ rows.Perm (db.agreementsByIds ids status agreementType) ∧
        rows.Pairwise fun a b => b.createdAt ≤ a.createdAt) ∧ db' = db

/-- The answering database, for the queries of the lists. -/
def AgreementDb.answerListing : (c : ListingCall) → AgreementDb → c.reply × AgreementDb
  | .agreement c, db => db.answer c
  | .participations wallets, db => (.ok (db.participationsOf wallets), db)
  | .createdRows wallets, db => (.ok (db.createdRowsOf wallets), db)
  | .agreementsByIds ids status agreementType, db =>
      (.ok ((db.agreementsByIds ids status agreementType).insertionSort fun a b =>
        b.createdAt ≤ a.createdAt), db)

theorem AgreementDb.answers_answerListing (c : ListingCall) (db : AgreementDb) :
    c.Answers db (db.answerListing c).1 (db.answerListing c).2 := by
  cases c with
  | agreement c => exact db.answers_answer c
  | participations wallets => exact ⟨⟨_, rfl, .refl _⟩, rfl⟩
  | createdRows wallets => exact ⟨⟨_, rfl, .refl _⟩, rfl⟩
  | agreementsByIds ids status agreementType =>
      have htotal : Std.Total fun a b : Agreement => b.createdAt ≤ a.createdAt :=
        ⟨fun a b => le_total _ _⟩
      have htrans : IsTrans Agreement fun a b => b.createdAt ≤ a.createdAt :=
        ⟨fun a b c hab hbc => hbc.trans hab⟩
      exact ⟨⟨_, rfl, List.perm_insertionSort _ _, List.pairwise_insertionSort _ _⟩, rfl⟩

/-! ## The operations -/

/-- A program of the lists. -/
abbrev ListingProgram := Calls HttpException ListingCall ListingCall.reply

/-- A program of the agreement services, among the lists. -/
abbrev listed {α : Type} (p : AgreementProgram α) : ListingProgram α :=
  p.embed ListingCall.agreement fun _ x => x

/-- `{ ids, error }`. -/
structure IdsResult where
  ids : List String
  error : Option String
  deriving DecidableEq

/-- `{ agreements, error }`. -/
structure AgreementList where
  agreements : List Agreement
  error : Option String
  deriving DecidableEq

/-- `agreementIdsForWallets(wallets)`. -/
def agreementIdsForWallets (wallets : List String) : ListingProgram IdsResult := do
  if wallets.isEmpty then return ⟨[], none⟩
  else
    match ← ask (ListingCall.participations wallets) with
    | .error partError => return ⟨[], some partError.message⟩
    | .ok participations =>
      match ← ask (ListingCall.createdRows wallets) with
      | .error createdError => return ⟨[], some createdError.message⟩
      | .ok createdRows =>
        return ⟨((participations ++ createdRows).filter (· ≠ "")).eraseDups, none⟩

/-- `fetchAgreementsByIds(ids, filters)`. -/
def fetchAgreementsByIds (ids : List String) (status agreementType : Option String) :
    ListingProgram AgreementList := do
  if ids.isEmpty then return ⟨[], none⟩
  else
    match ← ask (ListingCall.agreementsByIds ids status agreementType) with
    | .error e => return ⟨[], some e.message⟩
    | .ok data => return ⟨data, none⟩

/-- `ListAgreementsQueryDto`. -/
structure ListAgreementsQueryDto where
  status : Option String := none
  type : Option String := none
  deriving DecidableEq

/-- `list(userId, query)`. An error without a text counts as none. -/
def list (userId : String) (query : ListAgreementsQueryDto) : ListingProgram AgreementList := do
  let wallets ← listed (resolveUserWallets userId)
  if wallets.isEmpty then return ⟨[], none⟩
  else
    let found ← agreementIdsForWallets wallets
    match nonEmpty found.error with
    | some error => return ⟨[], some error⟩
    | none => fetchAgreementsByIds found.ids query.status query.type

/-- `listByWallet(userId, wallet)`. -/
def listByWallet (userId wallet : String) : ListingProgram AgreementList := do
  listed (assertActorWallet userId wallet)
  let found ← agreementIdsForWallets [wallet]
  match nonEmpty found.error with
  | some error => return ⟨[], some error⟩
  | none => fetchAgreementsByIds found.ids none none

/-- `{ agreement, error }` of `getByContractId`. -/
structure ContractLookup where
  agreement : Option Agreement
  error : Option String
  deriving DecidableEq

/-- `getByContractId(userId, contractId)`. -/
def getByContractId (userId contractId : String) : AgreementProgram ContractLookup := do
  match ← ask (AgreementCall.findByContract contractId) with
  | .error e =>
    -- several rows end in this code as well
    if e.code = "PGRST116" then
      return ⟨none, some
        "Ningún acuerdo tiene contract_id igual a este valor (revisá Supabase o hacé PATCH link-contract antes)."⟩
    else return ⟨none, some e.message⟩
  | .ok none =>
    return ⟨none, some
      "Ningún acuerdo tiene contract_id igual a este valor (copiá el texto exacto de la columna contract_id)."⟩
  | .ok (some data) =>
    assertCanAccessAgreement userId data.id
    return ⟨some data, none⟩

/-! ## What an answered list holds -/

section Answered

open Calls (Ensures)

variable {db : AgreementDb} {userId : String} {wallets : List String}

/-- What an answered program of the agreement services ends with, it ends with among the lists. -/
theorem ensures_listed {α : Type} {p : AgreementProgram α}
    {Q : Except HttpException α → AgreementDb → Prop} (h : Ensures Answers p db Q) :
    Ensures ListingCall.Answers (listed p) db Q := by
  induction p generalizing db with
  | done a => exact h
  | fail e => exact h
  | call c next ih =>
      intro x db₁ hx
      exact ih x (h x db₁ hx)

/-- One of the wallets created the agreement or takes part in it. -/
def reachedBy (db : AgreementDb) (wallets : List String) (a : Agreement) : Bool :=
  a.createdBy ∈ wallets ∨ ∃ p ∈ db.participants, p.agreementId = a.id ∧ p.walletAddress ∈ wallets

/-- The ids found are the ones of the agreements that the wallets reach. -/
theorem mem_agreementIds_iff {participations createdRows : List String}
    (hpart : participations.Perm (db.participationsOf wallets))
    (hcreated : createdRows.Perm (db.createdRowsOf wallets))
    (ids : Table.Unique Agreement.id db.agreements) {a : Agreement} (ha : a ∈ db.agreements) :
    a.id ∈ ((participations ++ createdRows).filter (· ≠ "")).eraseDups ↔
      a.id ≠ "" ∧ reachedBy db wallets a = true := by
  rw [List.mem_eraseDups, List.mem_filter, List.mem_append, hpart.mem_iff, hcreated.mem_iff,
    AgreementDb.participationsOf, AgreementDb.createdRowsOf, reachedBy]
  simp only [List.mem_map, List.mem_filter, decide_eq_true_eq, and_comm (b := a.id ≠ "")]
  refine and_congr_right fun _ => ?_
  constructor
  · rintro (⟨p, ⟨hp, hwallet⟩, hid⟩ | ⟨b, ⟨hb, hcreator⟩, hid⟩)
    · exact .inr ⟨p, hp, hid, hwallet⟩
    · rw [ids.eq hb ha hid] at hcreator
      exact .inl hcreator
  · rintro (hcreator | ⟨p, hp, hid, hwallet⟩)
    · exact .inr ⟨a, ⟨ha, hcreator⟩, rfl⟩
    · exact .inl ⟨p, ⟨hp, hwallet⟩, hid⟩

/-- The agreements that the wallets reach and the filters let through. -/
def listedAgreements (db : AgreementDb) (wallets : List String) (status agreementType : Option String) :
    List Agreement :=
  db.agreements.filter fun a => a.id ≠ "" ∧ reachedBy db wallets a ∧
    matchesFilter status a.status ∧ matchesFilter agreementType a.agreementType

theorem agreementIdsForWallets_all (ids : Table.Unique Agreement.id db.agreements) :
    Ensures ListingCall.Answers (agreementIdsForWallets wallets) db fun out db' => db' = db ∧
      ∃ found, out = .ok ⟨found, none⟩ ∧ ∀ a ∈ db.agreements,
        (a.id ∈ found ↔ a.id ≠ "" ∧ reachedBy db wallets a = true) := by
  unfold agreementIdsForWallets
  split
  · rename_i hempty
    obtain rfl : wallets = [] := by simpa using hempty
    refine ⟨rfl, [], rfl, fun a ha => ?_⟩
    simp [reachedBy]
  · refine Calls.ensures_ask fun x db₁ hx => ?_
    obtain ⟨⟨participations, rfl, hpart⟩, rfl⟩ := hx
    refine Calls.ensures_ask fun y db₂ hy => ?_
    obtain ⟨⟨createdRows, rfl, hcreated⟩, rfl⟩ := hy
    exact ⟨rfl, _, rfl, fun a ha => mem_agreementIds_iff hpart hcreated ids ha⟩

/-- The rows read by the ids of what the wallets reach. -/
theorem fetchAgreementsByIds_all {found : List String} {status agreementType : Option String}
    (hfound : ∀ a ∈ db.agreements,
      (a.id ∈ found ↔ a.id ≠ "" ∧ reachedBy db wallets a = true)) :
    Ensures ListingCall.Answers (fetchAgreementsByIds found status agreementType) db
      fun out _ => ∃ rows, out = .ok ⟨rows, none⟩ ∧
        rows.Perm (listedAgreements db wallets status agreementType) ∧
        rows.Pairwise fun a b => b.createdAt ≤ a.createdAt := by
  have hsame : db.agreementsByIds found status agreementType =
      listedAgreements db wallets status agreementType := by
    refine List.filter_congr fun a ha => ?_
    simp only [hfound a ha, and_assoc]
  unfold fetchAgreementsByIds
  split
  · rename_i hempty
    obtain rfl : found = [] := by simpa using hempty
    refine ⟨[], rfl, ?_, .nil⟩
    rw [← hsame, AgreementDb.agreementsByIds]
    simp
  · refine Calls.ensures_ask fun x db₁ hx => ?_
    obtain ⟨⟨rows, rfl, hperm, hsorted⟩, rfl⟩ := hx
    exact ⟨rows, rfl, hsame ▸ hperm, hsorted⟩

/-- The list of a user holds what one of the user's wallets reaches, the newest first. -/
theorem list_all (ids : Table.Unique Agreement.id db.agreements) (query : ListAgreementsQueryDto) :
    Ensures ListingCall.Answers (list userId query) db fun out _ => ∃ rows, out = .ok ⟨rows, none⟩ ∧
      rows.Perm (listedAgreements db (ownWallets db userId) query.status query.type) ∧
      rows.Pairwise fun a b => b.createdAt ≤ a.createdAt := by
  refine Calls.ensures_bind.mpr ((ensures_listed resolveUserWallets_all).mono ?_)
  rintro out db₁ ⟨rfl, wallets, rfl, hall⟩
  refine ⟨fun wallets' hwallets => ?_, fun e he => by cases he⟩
  cases hwallets
  have hreached : ∀ a, reachedBy db₁ wallets a = reachedBy db₁ (ownWallets db₁ userId) a := by
    intro a
    simp only [reachedBy, hall]
  split
  · rename_i hempty
    obtain rfl : wallets = [] := by simpa using hempty
    have hnone : ownWallets db₁ userId = [] :=
      List.eq_nil_iff_forall_not_mem.mpr fun w hw => List.not_mem_nil ((hall w).mpr hw)
    refine ⟨[], rfl, ?_, .nil⟩
    rw [hnone]
    simp [listedAgreements, reachedBy]
  · refine Calls.ensures_bind.mpr ((agreementIdsForWallets_all ids).mono ?_)
    rintro out db₂ ⟨rfl, found, rfl, hfound⟩
    refine ⟨fun result hresult => ?_, fun e he => by cases he⟩
    cases hresult
    simp only [hreached] at hfound
    exact fetchAgreementsByIds_all hfound

end Answered

end ThalosBackend.Agreements
