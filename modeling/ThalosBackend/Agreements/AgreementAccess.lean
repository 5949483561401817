import ThalosBackend.Agreements.AgreementValidator
import ThalosBackend.Wallets.WalletsService

/-!
# Who may act on an agreement, and the activity log

`AgreementsService.assertActorWallet` and `assertCanAccessAgreement`, the helpers of
`common/wallets/resolve-user-wallets.ts` behind them, and `AgreementActivityService`. A service is a
program over the queries of `AgreementDb`; an answer whose error the source does not look at is used
through its data.
-/

set_option autoImplicit false

namespace ThalosBackend.Agreements

open Js (Value)
open Calls (ask)
open Wallets (Reply)

/-- A program of the agreement services. -/
abbrev AgreementProgram := Calls HttpException AgreementCall AgreementCall.reply

/-- `resolveUserWallets(client, userId)`. -/
def resolveUserWallets (userId : String) : AgreementProgram (List String) :=
  (Wallets.resolveUserWallets userId).embed AgreementCall.wallet fun _ x => x

/-- `userCanAccessAgreement(client, userId, agreementId, createdBy)`. -/
def userCanAccessAgreement (userId agreementId createdBy : String) : AgreementProgram Bool := do
  let wallets ← resolveUserWallets userId
  if wallets.isEmpty then return false
  else if createdBy = userId ∨ createdBy ∈ wallets then return true
  else
    let parts ← ask (AgreementCall.findParticipant agreementId wallets)
    return (Reply.data parts).isSome

/-- `assertActorWallet(userId, actorWallet)`. -/
def assertActorWallet (userId actorWallet : String) : AgreementProgram Unit := do
  let wallets ← resolveUserWallets userId
  if wallets.isEmpty then
    .fail (.forbidden
      "No hay wallet asociada a este usuario (ni en user_wallets ni en auth_users.wallet_public_key). Revisá Supabase y que Nest use el mismo proyecto (SUPABASE_URL).")
  else if actorWallet ∉ wallets then
    .fail (.forbidden
      "created_by debe ser una de las wallets vinculadas al usuario del JWT (misma cadena G...).")
  else return ()

/-- `assertCanAccessAgreement(userId, agreementId)`. -/
def assertCanAccessAgreement (userId agreementId : String) : AgreementProgram Unit := do
  match Reply.data (← ask (AgreementCall.findAgreement agreementId)) with
  | none => .fail (.notFound "Agreement not found")
  | some agreement =>
    if ← userCanAccessAgreement userId agreementId agreement.createdBy then return ()
    else .fail (.forbidden "Not a participant of this agreement")

/-- `logActivity(agreementId, actorWallet, action, details, states)`. An error is only logged. -/
def logActivity (row : Activity) : AgreementProgram Unit := do
  let _ ← ask (AgreementCall.insertActivity row)
  return ()

/-- `this.eventEmitter.emit(event)`. -/
def emit (event : AgreementEvent) : AgreementProgram Unit := do
  let _ ← ask (AgreementCall.emit event)
  return ()

/-- Work that is not awaited. -/
def inBackground (work : BackgroundWork) : AgreementProgram Unit := do
  let _ ← ask (AgreementCall.background work)
  return ()

/-- An optional text as JSON. -/
def optionalText : Option String → Value
  | some s => .string s
  | none => .undefined

/-- A column that may be null, as JSON. -/
def nullableText : Option String → Value
  | some s => .string s
  | none => .null

/-- `String(status)` of the status column. -/
def statusText (status : Option String) : String := status.getD "null"

/-! ## Quiet programs

Access checks, the activity log, events and background work leave the tables of agreements and
disputes alone. -/

/-- The call leaves agreements, disputes and resolutions alone, and the wallets too. -/
def AgreementCall.isQuiet : AgreementCall → Bool
  | .wallet c => match c with
      | .findWallet _ _ | .getWallet _ _ | .countWallets _ | .readAuthUser _ | .anyWallet _
      | .listWallets _ => true
      | _ => false
  | .findAgreement _ | .getAgreement _ | .findByContract _ | .insertParticipants _
  | .findParticipant _ _ | .listParticipants _ | .insertActivity _ | .findLiveDispute _
  | .findDispute _ | .emit _ | .background _ => true
  | _ => false

/-- The tables that matter are the same. -/
structure SameTables (db db' : AgreementDb) : Prop where
  wallet : db'.wallet = db.wallet
  agreements : db'.agreements = db.agreements
  disputes : db'.disputes = db.disputes
  resolutions : db'.resolutions = db.resolutions

theorem SameTables.refl (db : AgreementDb) : SameTables db db := ⟨rfl, rfl, rfl, rfl⟩

theorem SameTables.trans {db₁ db₂ db₃ : AgreementDb} (h : SameTables db₁ db₂)
    (h' : SameTables db₂ db₃) : SameTables db₁ db₃ :=
  ⟨h'.wallet.trans h.wallet, h'.agreements.trans h.agreements, h'.disputes.trans h.disputes,
    h'.resolutions.trans h.resolutions⟩

/-- A quiet call, answered or not. -/
theorem Executes.sameTables {c : AgreementCall} {db db' : AgreementDb} {x : c.reply}
    (h : Executes c db x db') (hquiet : c.isQuiet = true) : SameTables db db' := by
  rcases h with h | ⟨-, -, hsame⟩
  · cases c with
    | wallet c' =>
        obtain ⟨wallet, hwallet, rfl⟩ := h
        refine ⟨?_, rfl, rfl, rfl⟩
        cases c' with
        | findWallet userId address => exact hwallet.2
        | getWallet walletId userId => exact hwallet.2
        | countWallets userId => exact hwallet.2
        | readAuthUser userId => exact hwallet.2
        | anyWallet userId => exact hwallet.2
        | listWallets userId => exact hwallet.2
        | _ => cases hquiet
    | findAgreement id => exact h.2 ▸ .refl db
    | getAgreement id => exact h.2 ▸ .refl db
    | findByContract contractId => exact h.2 ▸ .refl db
    | findParticipant agreementId wallets => exact h.2 ▸ .refl db
    | listParticipants agreementId => exact h.2 ▸ .refl db
    | findLiveDispute agreementId => exact h.2 ▸ .refl db
    | findDispute id => exact h.2 ▸ .refl db
    | insertParticipants rows => exact h.2 ▸ ⟨rfl, rfl, rfl, rfl⟩
    | insertActivity row => exact h.2 ▸ ⟨rfl, rfl, rfl, rfl⟩
    | emit event => exact h.2 ▸ ⟨rfl, rfl, rfl, rfl⟩
    | background work => exact h.2 ▸ ⟨rfl, rfl, rfl, rfl⟩
    | _ => cases hquiet
  · exact hsame ▸ .refl db

/-- A program of quiet calls. -/
abbrev Quiet {α : Type} (p : AgreementProgram α) : Prop :=
  Calls.Every (fun _ _ => True) (fun c => c.isQuiet = true) (fun _ => True) p

/-- What a quiet program is followed by finds the tables as they were. -/
theorem Quiet.ensures {α : Type} {p : AgreementProgram α} (h : Quiet p) {db : AgreementDb}
    {Q : Except HttpException α → AgreementDb → Prop}
    (hQ : ∀ out db', SameTables db db' → Q out db') : Calls.Ensures Executes p db Q :=
  Calls.Every.ensures h
    (fun _ _ _ _ hquiet hI hexec => ⟨hI.trans (hexec.sameTables hquiet), trivial⟩)
    (SameTables.refl db) fun out db' hsame _ => hQ out db' hsame

theorem Quiet.bind {α β : Type} {p : AgreementProgram α} {f : α → AgreementProgram β} (h : Quiet p)
    (hf : ∀ a, Quiet (f a)) : Quiet (p >>= f) :=
  Calls.every_bind.mpr (h.mono (fun _ _ h => h) (fun _ h => h) fun a _ => hf a)

theorem quiet_ask {α : Type} {c : AgreementCall} {f : c.reply → AgreementProgram α}
    (hc : c.isQuiet = true) (hf : ∀ x, Quiet (f x)) : Quiet (ask c >>= f) :=
  ⟨hc, fun x _ => hf x⟩

theorem quiet_done {α : Type} (a : α) : Quiet (.done a : AgreementProgram α) := trivial

theorem quiet_fail {α : Type} (e : HttpException) : Quiet (.fail e : AgreementProgram α) := trivial

/-! ## Silent programs

A quiet program that emits no event and leaves no work behind. -/

/-- The call is quiet, and nothing leaves the services. -/
def AgreementCall.isSilent (c : AgreementCall) : Bool :=
  c.isQuiet && match c with
    | .emit _ | .background _ => false
    | _ => true

/-- A program of silent calls. -/
abbrev Silent {α : Type} (p : AgreementProgram α) : Prop :=
  Calls.Only (fun c : AgreementCall => c.isSilent = true) p

theorem Silent.quiet {α : Type} {p : AgreementProgram α} (h : Silent p) : Quiet p :=
  Calls.Only.mono h fun _ hc => (Bool.and_eq_true_iff.mp hc).1

theorem resolveUserWallets_silent (userId : String) : Silent (resolveUserWallets userId) :=
  ⟨rfl, fun _ _ => ⟨rfl, fun _ _ => trivial⟩⟩

theorem userCanAccessAgreement_silent (userId agreementId createdBy : String) :
    Silent (userCanAccessAgreement userId agreementId createdBy) := by
  refine (resolveUserWallets_silent userId).bind fun wallets => ?_
  split
  · exact Calls.only_done _
  · split
    · exact Calls.only_done _
    · exact Calls.only_ask rfl fun _ => Calls.only_done _

theorem assertActorWallet_silent (userId actorWallet : String) :
    Silent (assertActorWallet userId actorWallet) := by
  refine (resolveUserWallets_silent userId).bind fun wallets => ?_
  split
  · exact Calls.only_fail _
  · split
    · exact Calls.only_fail _
    · exact Calls.only_done _

theorem assertCanAccessAgreement_silent (userId agreementId : String) :
    Silent (assertCanAccessAgreement userId agreementId) := by
  refine Calls.only_ask rfl fun reply => ?_
  split
  · exact Calls.only_fail _
  · refine (userCanAccessAgreement_silent _ _ _).bind fun allowed => ?_
    split
    · exact Calls.only_done _
    · exact Calls.only_fail _

theorem logActivity_silent (row : Activity) : Silent (logActivity row) :=
  Calls.only_ask rfl fun _ => Calls.only_done _

theorem assertActorWallet_quiet (userId actorWallet : String) :
    Quiet (assertActorWallet userId actorWallet) :=
  (assertActorWallet_silent userId actorWallet).quiet

theorem assertCanAccessAgreement_quiet (userId agreementId : String) :
    Quiet (assertCanAccessAgreement userId agreementId) :=
  (assertCanAccessAgreement_silent userId agreementId).quiet

theorem logActivity_quiet (row : Activity) : Quiet (logActivity row) :=
  (logActivity_silent row).quiet

theorem emit_quiet (event : AgreementEvent) : Quiet (emit event) :=
  quiet_ask rfl fun _ => quiet_done _

theorem inBackground_quiet (work : BackgroundWork) : Quiet (inBackground work) :=
  quiet_ask rfl fun _ => quiet_done _

end ThalosBackend.Agreements
