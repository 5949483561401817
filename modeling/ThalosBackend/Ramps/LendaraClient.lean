import ThalosBackend.Agreements.AgreementAccess

/-!
# What the ramps ask for

The client of Lendara, `ramps/lendara.client.ts`, beside the queries of the agreements. Lendara opens a
session for an account and reports the transaction behind a session; it is outside, and an answer of its
that cannot be read lacks what is read.
-/

set_option autoImplicit false

namespace ThalosBackend.Ramps

open Agreements (AgreementCall)
open Js (nonEmpty)

/-- The body of `POST /v1/sessions`. -/
structure SessionParams where
  account : String
  fiatCurrency : String
  amount : String
  deriving DecidableEq

/-- `LendaraSession`. -/
structure LendaraSession where
  id : Option String
  url : Option String
  expiresAt : Option String
  deriving DecidableEq

/-- `LendaraTransaction`. -/
structure LendaraTransaction where
  status : Option String
  stellarTransactionId : Option String
  /-- `to`. -/
  toAccount : Option String
  amountOutAsset : Option String
  destination : Option String
  account : Option String
  assetIssuer : Option String
  deriving DecidableEq

/-- `tx.to ?? tx.destination ?? tx.account`. -/
def LendaraTransaction.paidTo (tx : LendaraTransaction) : Option String :=
  tx.toAccount <|> tx.destination <|> tx.account

/-- `issuerOf(asset)`. -/
def issuerOf (asset : Option String) : Option String :=
  match (nonEmpty asset).map fun text => (text.toList.splitOn ':').map String.ofList with
  | some [network, _, issuer] => if network = "stellar" then some issuer else none
  | _ => none

/-- What the ramps ask for. -/
inductive RampsCall where
  /-- A query of the agreements and wallets. -/
  | agreement (c : AgreementCall)
  | createSession (params : SessionParams)
  | getTransaction (sessionId : String)
  deriving DecidableEq

/-- What a call is answered with. A body may be `null`. -/
abbrev RampsCall.reply : RampsCall → Type
  | .agreement c => c.reply
  | .createSession _ => Except HttpException (Option LendaraSession)
  | .getTransaction _ => Except HttpException (Option LendaraTransaction)

/-- A program of the ramps. -/
abbrev RampsProgram := Calls HttpException RampsCall RampsCall.reply

/-- A program of the agreements as one of the ramps. -/
def ofAgreements {α : Type} (p : Agreements.AgreementProgram α) : RampsProgram α :=
  p.embed RampsCall.agreement fun _ x => x

end ThalosBackend.Ramps
