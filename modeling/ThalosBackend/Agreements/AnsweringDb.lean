import Mathlib.Data.List.Sort
import ThalosBackend.Agreements.AgreementRuns

/-!
# A database that answers

`Answers` leaves ids, times and the order of some rows open. `AgreementDb.answer` is one database that
meets it, as a function: a new row gets an id longer than every id there is. With it every operation
runs to its end, and runs on given stores can be computed.
-/

set_option autoImplicit false

namespace ThalosBackend

/-- A text that is none of the given ones. -/
def freshText (used : List String) : String :=
  String.ofList (List.replicate ((used.map String.length).foldr max 0 + 1) 'i')

theorem length_le_foldr_max {used : List String} {s : String} (hs : s ∈ used) :
    s.length ≤ (used.map String.length).foldr max 0 := by
  induction used with
  | nil => cases hs
  | cons t rest ih =>
      rcases List.mem_cons.mp hs with rfl | hs
      · exact le_max_left _ _
      · exact (ih hs).trans (le_max_right _ _)

theorem freshText_ne {used : List String} {s : String} (hs : s ∈ used) : s ≠ freshText used := by
  intro heq
  have hlength := length_le_foldr_max hs
  have hfresh : (freshText used).length = (used.map String.length).foldr max 0 + 1 := by
    simp [freshText]
  rw [← heq] at hfresh
  omega

namespace Wallets

/-- The answer to a query of the wallet tables. -/
def WalletDb.answer : (c : WalletCall) → WalletDb → c.reply × WalletDb
  | .findWallet userId walletAddress, db =>
      (maybeSingle (db.wallets.filter fun w =>
        w.userId = userId ∧ w.walletAddress = walletAddress), db)
  | .getWallet walletId userId, db =>
      (maybeSingle (db.wallets.filter fun w => w.id = walletId ∧ w.userId = userId), db)
  | .countWallets userId, db => (.ok (db.walletsOf userId).length, db)
  | .readAuthUser userId, db => (.ok (db.authUsers userId), db)
  | .insertWallet new, db =>
      let row := new.row (freshText (db.wallets.map UserWallet.id)) 0
      if new.namesMissing db.columns then (.error missingColumn, db)
      else if UniqueIndexes (db.wallets ++ [row]) then
        (.ok row, { db with wallets := db.wallets ++ [row] })
      else (.error duplicateKey, db)
  | .setWalletProvider userId provider, db =>
      (.ok (), { db with
        authUsers := fun u => if u = userId then
            (db.authUsers u).map fun a => { a with walletProvider := some provider }
          else db.authUsers u })
  | .markVerified walletId now, db => db.updateOne walletId (UserWallet.markVerified now)
  | .clearOtherPrimaries userId walletId now, db =>
      (.ok (), db.updateWallets (fun w => w.userId = userId ∧ w.id ≠ walletId)
        fun w => { w with isPrimary := some false, updatedAt := now })
  | .updateWallet walletId updates, db => db.updateOne walletId (UserWallet.apply updates)
  | .deleteWallet walletId userId, db =>
      (.ok (), { db with
        wallets := db.wallets.filter fun w => ¬ (w.id = walletId ∧ w.userId = userId) })
  | .anyWallet userId, db => (.ok ((db.walletsOf userId).head?.map UserWallet.id), db)
  | .setPrimary walletId, db =>
      let next := db.updateWallets (fun w => w.id = walletId)
        fun w => { w with isPrimary := some true }
      if UniqueIndexes next.wallets then (.ok (), next) else (.error duplicateKey, db)
  | .listWallets userId, db =>
      (.ok ((db.walletsOf userId).insertionSort fun v w => primaryRank w ≤ primaryRank v), db)

theorem WalletDb.answers_answer (c : WalletCall) (db : WalletDb) :
    Answers c db (db.answer c).1 (db.answer c).2 := by
  cases c with
  | insertWallet new =>
      simp only [Answers, WalletDb.answer]
      split
      · exact ⟨rfl, rfl⟩
      · refine ⟨freshText (db.wallets.map UserWallet.id), 0, ?_⟩
        split
        · exact ⟨rfl, rfl⟩
        · exact ⟨rfl, rfl⟩
  | anyWallet userId =>
      cases h : db.walletsOf userId with
      | nil => simp [Answers, WalletDb.answer, h]
      | cons w ws => simp [Answers, WalletDb.answer, h]
  | setPrimary walletId =>
      simp only [Answers, WalletDb.answer]
      split
      · simp
      · simp
  | listWallets userId =>
      have htotal : Std.Total fun v w : UserWallet => primaryRank w ≤ primaryRank v :=
        ⟨fun v w => le_total _ _⟩
      have htrans : IsTrans UserWallet fun v w => primaryRank w ≤ primaryRank v :=
        ⟨fun u v w huv hvw => hvw.trans huv⟩
      exact ⟨⟨_, rfl, List.perm_insertionSort _ _, List.pairwise_insertionSort _ _⟩, rfl⟩
  | markVerified walletId now => rfl
  | updateWallet walletId updates => rfl
  | _ => exact ⟨rfl, rfl⟩

end Wallets

namespace Agreements

open Js (FloatArithmetic Number Value)
open Wallets (maybeSingle noRows)

/-- The answer to a query. -/
def AgreementDb.answer : (c : AgreementCall) → AgreementDb → c.reply × AgreementDb
  | .wallet c, db => ((db.wallet.answer c).1, { db with wallet := (db.wallet.answer c).2 })
  | .findAgreement id, db => (maybeSingle (db.agreements.filter fun a => a.id = id), db)
  | .getAgreement id, db =>
      (match db.agreements.filter fun a => a.id = id with
        | [a] => .ok a
        | _ => .error noRows, db)
  | .findByContract contractId, db => (maybeSingle (db.byContract contractId), db)
  | .insertAgreement new, db =>
      let row := new.row (freshText (db.agreements.map Agreement.id)) 0
      (.ok row, { db with agreements := db.agreements ++ [row] })
  | .deleteAgreement id, db =>
      (.ok (), { db with agreements := db.agreements.filter fun a => a.id ≠ id })
  | .updateAgreement id updates, db => (.ok (), db.updateAgreements (fun a => a.id = id) updates)
  | .changeStatusByContract contractId target updates, db =>
      match db.agreements.filter (matchesStatusUpdate contractId target) with
      | [] => (.ok none, db)
      | [a] => (.ok (some (a.apply updates)),
          db.updateAgreements (matchesStatusUpdate contractId target) updates)
      | _ => (.error noRows, db)
  | .updateByContract contractId updates, db =>
      (.ok (), db.updateAgreements (fun a => a.contractId = some contractId) updates)
  | .insertParticipants rows, db => (.ok (), { db with participants := db.participants ++ rows })
  | .findParticipant agreementId wallets, db =>
      (.ok (db.participants.filter fun p =>
        p.agreementId = agreementId ∧ p.walletAddress ∈ wallets).head?, db)
  | .listParticipants agreementId, db =>
      (.ok (db.participants.filter fun p => p.agreementId = agreementId), db)
  | .insertActivity row, db => (.ok (), { db with activity := db.activity ++ [row] })
  | .findLiveDispute agreementId, db => (maybeSingle (db.liveDisputes agreementId), db)
  | .insertDispute new, db =>
      let row := new.row (freshText (db.disputes.map Dispute.id)) 0
      (.ok row, { db with disputes := db.disputes ++ [row] })
  | .findDispute id, db => (maybeSingle (db.disputes.filter fun d => d.id = id), db)
  | .updateDispute id updates, db =>
      (.ok (), { db with
        disputes := Table.updateWhere (fun d => d.id = id) (Dispute.apply updates) db.disputes })
  | .insertResolution new, db =>
      let row := new.row (freshText (db.resolutions.map DisputeResolution.id)) 0
      (.ok row, { db with resolutions := db.resolutions ++ [row] })
  | .emit event, db => (.ok (), { db with events := db.events ++ [event] })
  | .background work, db => (.ok (), { db with background := db.background ++ [work] })

theorem AgreementDb.answers_answer (c : AgreementCall) (db : AgreementDb) :
    Answers c db (db.answer c).1 (db.answer c).2 := by
  cases c with
  | wallet c => exact ⟨_, db.wallet.answers_answer c, rfl⟩
  | getAgreement id =>
      refine ⟨?_, rfl⟩
      split
      · rename_i a h
        simp [AgreementDb.answer, h]
      · simp only [AgreementDb.answer]
  | changeStatusByContract contractId target updates =>
      rcases h : db.agreements.filter (matchesStatusUpdate contractId target) with _ | ⟨a, _ | ⟨b, _⟩⟩
      · simp [Answers, AgreementDb.answer, h]
      · simp [Answers, AgreementDb.answer, h]
      · simp [Answers, AgreementDb.answer, h]
  | findParticipant agreementId wallets =>
      refine ⟨?_, rfl⟩
      split
      · rename_i h
        simp only [AgreementDb.answer, h, List.head?_nil]
      · rename_i p ps h
        exact ⟨p, List.mem_cons_self, by simp only [AgreementDb.answer, h, List.head?_cons]⟩
  | listParticipants agreementId => exact ⟨⟨_, rfl, .refl _⟩, rfl⟩
  | insertAgreement new =>
      exact ⟨_, _, fun a ha => freshText_ne (List.mem_map_of_mem ha), rfl, rfl⟩
  | insertDispute new =>
      exact ⟨_, _, fun d hd => freshText_ne (List.mem_map_of_mem hd), rfl, rfl⟩
  | insertResolution new =>
      exact ⟨_, _, fun r hr => freshText_ne (List.mem_map_of_mem hr), rfl, rfl⟩
  | _ => exact ⟨rfl, rfl⟩

/-- An operation on the answering database. -/
def Operation.run (F : FloatArithmetic) (o : Operation) (db : AgreementDb) :
    Except HttpException AgreementAnswer × AgreementDb :=
  Calls.run (fun c db => db.answer c) (o.program F) db

theorem Operation.answers (F : FloatArithmetic) (o : Operation) (db : AgreementDb) :
    Calls.Runs Answers (o.program F) db (o.run F db).1 (o.run F db).2 :=
  Calls.runs_run (fun c db => db.answers_answer c) _ _

theorem Operation.runs (F : FloatArithmetic) (o : Operation) (db : AgreementDb) :
    Calls.Runs Executes (o.program F) db (o.run F db).1 (o.run F db).2 :=
  Calls.runs_run (fun c db => .inl (db.answers_answer c)) _ _

/-- The operations, one after the other. -/
def runAll (F : FloatArithmetic) (os : List Operation) (db : AgreementDb) : AgreementDb :=
  os.foldl (fun db o => (o.run F db).2) db

/-- What the operations lead to is reachable. -/
theorem reachable_runAll {F : FloatArithmetic} {os : List Operation} {db : AgreementDb}
    (h : (agreementSystem F).Reachable db) : (agreementSystem F).Reachable (runAll F os db) := by
  induction os generalizing db with
  | nil => exact h
  | cons o rest ih => exact ih (h.step ⟨_, o.runs F db⟩)

/-- Every operation of the list meets the guard where it starts. -/
def guardedAll (F : FloatArithmetic) (guard : AgreementDb → Operation → Bool) :
    List Operation → AgreementDb → Bool
  | [], _ => true
  | o :: os, db => guard db o && guardedAll F guard os (o.run F db).2

/-- What guarded operations lead to is reachable by guarded steps. -/
theorem reachable_restrict_runAll {F : FloatArithmetic} {guard : AgreementDb → Operation → Bool}
    {os : List Operation} {db : AgreementDb}
    (h : ((agreementSystem F).restrict fun db o => guard db o = true).Reachable db)
    (hguard : guardedAll F guard os db = true) :
    ((agreementSystem F).restrict fun db o => guard db o = true).Reachable (runAll F os db) := by
  induction os generalizing db with
  | nil => exact h
  | cons o os ih =>
      obtain ⟨hfirst, hrest⟩ := Bool.and_eq_true_iff.mp hguard
      exact ih (h.step ⟨hfirst, _, o.runs F db⟩) hrest

/-- Guarded operations lead from the store they find to the store they leave. -/
theorem leads_runAll {F : FloatArithmetic} {guard : AgreementDb → Operation → Bool}
    {os : List Operation} {db : AgreementDb} (hguard : guardedAll F guard os db = true) :
    ((agreementSystem F).restrict fun db o => guard db o = true).Leads db (runAll F os db) := by
  induction os generalizing db with
  | nil => exact .refl
  | cons o os ih =>
      obtain ⟨hfirst, hrest⟩ := Bool.and_eq_true_iff.mp hguard
      exact .head ⟨o, hfirst, _, o.runs F db⟩ (ih hrest)

/-! ## A store to run on -/

/-- Arithmetic without rounding, which double precision is on small amounts. -/
def exactArithmetic : FloatArithmetic where
  number := Number.stringToNumber
  parseFloat := Number.stringToNumber
  add a b := a + b
  mul a b := a * b
  div a b := match a, b with
    | .finite p, .finite q => .finite (p / q)
    | _, _ => .nan
  round := Number.round
  toFixed x _ := x.toText

/-- A store whose users log in with these keys, and which holds these rows. -/
def storeWith (keys : String → Option String) (agreements : List Agreement)
    (disputes : List Dispute) : AgreementDb where
  wallet :=
    { wallets := []
      authUsers := fun userId => (keys userId).map fun key => ⟨some key, none, none⟩
      columns := ⟨true, true, true⟩ }
  agreements
  participants := []
  activity := []
  disputes
  resolutions := []
  events := []
  background := []

/-- `payer` has the wallet `P` and `payee` the wallet `Q`. -/
def twoParties : String → Option String
  | "payer" => some "P"
  | "payee" => some "Q"
  | _ => none

/-- A store with these two users and nothing else. -/
def newStore : AgreementDb := storeWith twoParties [] []

theorem isNew_newStore : newStore.isNew := ⟨rfl, rfl, rfl⟩

/-- An agreement of the two over these milestones. -/
def sampleDto (amount : String) (contractId : Option String) (milestones : List MilestoneDto) :
    CreateAgreementDto where
  contractId
  title := "Site"
  description := none
  amount
  asset := none
  agreementType := some (if milestones.length ≤ 1 then "single" else "multi")
  milestones := some milestones
  metadata := none
  createdBy := "P"
  participants := [⟨"P", "payer"⟩, ⟨"Q", "payee"⟩]

/-- Two milestones over 4 and 6. -/
def splitTen : List MilestoneDto := [⟨"Draft", "4", .pending⟩, ⟨"Launch", "6", .pending⟩]

/-- The creation of an agreement by `payer`. -/
def createOperation (amount : String) (contractId : Option String)
    (milestones : List MilestoneDto) : Operation :=
  ⟨0, .create "payer" (sampleDto amount contractId milestones)⟩

/-- Trustless Work answers with this escrow. -/
def answered (escrow : Value) : Fetch := ⟨.ok ⟨200, escrow⟩, .error .internal⟩

end Agreements

end ThalosBackend
