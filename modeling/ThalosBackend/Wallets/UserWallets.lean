import ThalosBackend.Common.HttpException
import ThalosBackend.Js.Date
import ThalosBackend.Library.Calls
import ThalosBackend.Library.Table

/-!
# The wallet tables

`user_wallets` with the unique indexes of its migrations, and what the wallet module reads and
writes of `auth_users`. `WalletCall` lists the queries of the module, and `Answers` says what the
database does with each; a query may also fail, which leaves the tables alone. The ids of rows and of
users stand for the `uuid` values of their columns, however a request spells them.

Which columns of the later migrations are there is open: an insert that names one that is missing
fails with `PGRST204`.
-/

set_option autoImplicit false

namespace ThalosBackend.Wallets

open Js (Timestamp)

inductive WalletType where
  | custodial
  | freighter
  | lobstr
  | xbull
  | albedo
  | accesly
  | other
  deriving DecidableEq

inductive AuthProvider where
  | pollar
  | accesly
  deriving DecidableEq

/-- A row of `user_wallets`. -/
structure UserWallet where
  id : String
  userId : String
  walletAddress : String
  walletType : WalletType
  label : Option String
  /-- The column may hold null. -/
  isPrimary : Option Bool
  isVerified : Bool
  verifiedAt : Option Timestamp
  authProvider : Option AuthProvider
  pollarUserId : Option String
  cAddress : Option String
  createdAt : Timestamp
  updatedAt : Timestamp
  deriving DecidableEq

/-- A row as it is inserted; the identity columns that are `none` are not named by the insert. -/
structure NewWallet where
  userId : String
  walletAddress : String
  walletType : WalletType
  label : Option String
  isPrimary : Bool
  isVerified : Bool
  verifiedAt : Option Timestamp
  authProvider : Option AuthProvider
  pollarUserId : Option String
  cAddress : Option String
  deriving DecidableEq

/-- What the wallet module uses of a row of `auth_users`. -/
structure AuthUser where
  walletPublicKey : Option String
  pollarUserId : Option String
  walletProvider : Option AuthProvider
  deriving DecidableEq

/-- Which columns of `user_wallets` the migrations 008 and 013 have added so far. -/
structure WalletColumns where
  authProvider : Bool
  pollarUserId : Bool
  cAddress : Bool
  deriving DecidableEq

structure WalletDb where
  wallets : List UserWallet
  authUsers : String → Option AuthUser
  columns : WalletColumns

/-- An error of the database client. -/
structure DbError where
  code : String
  message : String
  deriving DecidableEq

/-- `{ data, error }`. -/
abbrev Reply (α : Type) := Except DbError α

/-- The `data` of an answer whose error nobody looks at. -/
def Reply.data {α : Type} : Reply (Option α) → Option α
  | .ok x => x
  | .error _ => none

/-- `.maybeSingle()` on the rows a query finds. -/
def maybeSingle {α : Type} : List α → Reply (Option α)
  | [] => .ok none
  | [row] => .ok (some row)
  | _ => .error ⟨"PGRST116", "JSON object requested, multiple (or no) rows returned"⟩

/-- What `updateWallet` sets. A column that is `none` is left alone, one that is `some none` is set
to null. -/
structure WalletUpdates where
  label : Option (Option String)
  isPrimary : Option (Option Bool)
  updatedAt : Timestamp
  deriving DecidableEq

/-- The queries of the wallet module. -/
inductive WalletCall where
  /-- The wallet of a user under an address. -/
  | findWallet (userId walletAddress : String)
  /-- The wallet with an id, if it is the user's. -/
  | getWallet (walletId userId : String)
  | countWallets (userId : String)
  | readAuthUser (userId : String)
  | insertWallet (row : NewWallet)
  | setWalletProvider (userId : String) (provider : AuthProvider)
  /-- The update that ends `verifyWallet`. -/
  | markVerified (walletId : String) (now : Timestamp)
  /-- Unset `is_primary` on the user's other wallets. -/
  | clearOtherPrimaries (userId walletId : String) (now : Timestamp)
  | updateWallet (walletId : String) (updates : WalletUpdates)
  | deleteWallet (walletId userId : String)
  /-- Some wallet the user has left. -/
  | anyWallet (userId : String)
  | setPrimary (walletId : String)
  /-- The user's wallets, the primary one first. -/
  | listWallets (userId : String)
  deriving DecidableEq

/-- The data a query is answered with. -/
abbrev WalletCall.answer : WalletCall → Type
  | .findWallet _ _ | .getWallet _ _ => Option UserWallet
  | .countWallets _ => ℕ
  | .readAuthUser _ => Option AuthUser
  | .insertWallet _ | .markVerified _ _ | .updateWallet _ _ => UserWallet
  | .setWalletProvider _ _ | .clearOtherPrimaries _ _ _ | .deleteWallet _ _ | .setPrimary _ => Unit
  | .anyWallet _ => Option String
  | .listWallets _ => List UserWallet

/-- What a query is answered with. -/
abbrev WalletCall.reply (c : WalletCall) : Type := Reply c.answer

/-! ## The rows -/

/-- The unique indexes: the id, one row for a user and an address, one primary wallet for a user, and
one row for a smart account. -/
structure UniqueIndexes (rows : List UserWallet) : Prop where
  id : (rows.map UserWallet.id).Nodup
  address : (rows.map fun w => (w.userId, w.walletAddress)).Nodup
  isPrimary : ((rows.filter fun w => w.isPrimary = some true).map UserWallet.userId).Nodup
  cAddress : (rows.filterMap UserWallet.cAddress).Nodup

instance (rows : List UserWallet) : Decidable (UniqueIndexes rows) :=
  decidable_of_iff ((rows.map UserWallet.id).Nodup ∧
      (rows.map fun w => (w.userId, w.walletAddress)).Nodup ∧
      ((rows.filter fun w => w.isPrimary = some true).map UserWallet.userId).Nodup ∧
      (rows.filterMap UserWallet.cAddress).Nodup)
    ⟨fun ⟨hid, haddress, hprimary, hc⟩ => ⟨hid, haddress, hprimary, hc⟩,
      fun ⟨hid, haddress, hprimary, hc⟩ => ⟨hid, haddress, hprimary, hc⟩⟩

/-- The insert names a column that is not there. -/
def NewWallet.namesMissing (row : NewWallet) (columns : WalletColumns) : Bool :=
  (row.authProvider.isSome && !columns.authProvider) ||
    (row.pollarUserId.isSome && !columns.pollarUserId) ||
    (row.cAddress.isSome && !columns.cAddress)

/-- The inserted row, under the id and the time the database gives it. -/
def NewWallet.row (new : NewWallet) (id : String) (created : Timestamp) : UserWallet where
  id
  userId := new.userId
  walletAddress := new.walletAddress
  walletType := new.walletType
  label := new.label
  isPrimary := some new.isPrimary
  isVerified := new.isVerified
  verifiedAt := new.verifiedAt
  authProvider := new.authProvider
  pollarUserId := new.pollarUserId
  cAddress := new.cAddress
  createdAt := created
  updatedAt := created

def missingColumn : DbError := ⟨"PGRST204", "Could not find a column in the schema cache"⟩

def duplicateKey : DbError := ⟨"23505", "duplicate key value violates unique constraint"⟩

/-- The error of `.single()` when the update matched no row. -/
def noRows : DbError := ⟨"PGRST116", "JSON object requested, multiple (or no) rows returned"⟩

/-- The place of a wallet in the order `is_primary DESC`, which begins with the nulls. -/
def primaryRank (w : UserWallet) : ℕ :=
  match w.isPrimary with
  | some false => 0
  | some true => 1
  | none => 2

namespace UserWallet

/-- The row after `verifyWallet`. -/
def markVerified (now : Timestamp) (w : UserWallet) : UserWallet :=
  { w with isVerified := true, verifiedAt := some now, updatedAt := now }

/-- The row after `updateWallet`. -/
def apply (updates : WalletUpdates) (w : UserWallet) : UserWallet :=
  { w with
    label := updates.label.getD w.label
    isPrimary := updates.isPrimary.getD w.isPrimary
    updatedAt := updates.updatedAt }

end UserWallet

namespace WalletDb

/-- The wallets of a user. -/
def walletsOf (db : WalletDb) (userId : String) : List UserWallet :=
  db.wallets.filter fun w => w.userId = userId

/-- The key of `auth_users.wallet_public_key`, if the user has one. -/
def publicKey (db : WalletDb) (userId : String) : Option String :=
  (db.authUsers userId).bind AuthUser.walletPublicKey

/-- Rewrite rows. -/
def updateWallets (db : WalletDb) (p : UserWallet → Bool) (f : UserWallet → UserWallet) :
    WalletDb :=
  { db with wallets := Table.updateWhere p f db.wallets }

/-- An update of the row with an id that asks for the row back. The unique indexes are checked. -/
def updateOne (db : WalletDb) (walletId : String) (f : UserWallet → UserWallet) :
    Reply UserWallet × WalletDb :=
  let db' := db.updateWallets (fun w => w.id = walletId) f
  match db'.wallets.find? fun w => w.id = walletId with
  | none => (.error noRows, db)
  | some w => if UniqueIndexes db'.wallets then (.ok w, db') else (.error duplicateKey, db)

end WalletDb

/-- What the database does with a query that does not fail. The id and the creation time of a new
row are open, and so is the order of rows beyond what the query asks for. -/
def Answers : (c : WalletCall) → WalletDb → c.reply → WalletDb → Prop
  | .findWallet userId walletAddress, db, x, db' =>
      x = maybeSingle (db.wallets.filter fun w =>
        w.userId = userId ∧ w.walletAddress = walletAddress) ∧ db' = db
  | .getWallet walletId userId, db, x, db' =>
      x = maybeSingle (db.wallets.filter fun w => w.id = walletId ∧ w.userId = userId) ∧ db' = db
  | .countWallets userId, db, x, db' => x = .ok (db.walletsOf userId).length ∧ db' = db
  | .readAuthUser userId, db, x, db' => x = .ok (db.authUsers userId) ∧ db' = db
  | .insertWallet new, db, x, db' =>
      if new.namesMissing db.columns then x = .error missingColumn ∧ db' = db
      else ∃ id created, if UniqueIndexes (db.wallets ++ [new.row id created]) then
          x = .ok (new.row id created) ∧
            db' = { db with wallets := db.wallets ++ [new.row id created] }
        else x = .error duplicateKey ∧ db' = db
  | .setWalletProvider userId provider, db, x, db' =>
      x = .ok () ∧ db' = { db with
        authUsers := fun u => if u = userId then
            (db.authUsers u).map fun a => { a with walletProvider := some provider }
          else db.authUsers u }
  | .markVerified walletId now, db, x, db' =>
      (x, db') = db.updateOne walletId (UserWallet.markVerified now)
  | .clearOtherPrimaries userId walletId now, db, x, db' =>
      x = .ok () ∧ db' = db.updateWallets (fun w => w.userId = userId ∧ w.id ≠ walletId)
        fun w => { w with isPrimary := some false, updatedAt := now }
  | .updateWallet walletId updates, db, x, db' =>
      (x, db') = db.updateOne walletId (UserWallet.apply updates)
  | .deleteWallet walletId userId, db, x, db' =>
      x = .ok () ∧ db' = { db with
        wallets := db.wallets.filter fun w => ¬ (w.id = walletId ∧ w.userId = userId) }
  | .anyWallet userId, db, x, db' =>
      (match db.walletsOf userId with
        | [] => x = .ok none
        | w :: ws => ∃ v ∈ w :: ws, x = .ok (some v.id)) ∧ db' = db
  | .setPrimary walletId, db, x, db' =>
      (let next := db.updateWallets (fun w => w.id = walletId) 
          fun w => { w with isPrimary := some true }
        if UniqueIndexes next.wallets then x = .ok () ∧ db' = next
        else x = .error duplicateKey ∧ db' = db)
  | .listWallets userId, db, x, db' =>
      -- wallets of one rank come in any order
      (∃ rows, x = .ok rows ∧ rows.Perm (db.walletsOf userId) ∧
        rows.Pairwise fun v w => primaryRank w ≤ primaryRank v) ∧ db' = db

/-- A query that fails reports an error and changes nothing. -/
def Fails (c : WalletCall) (db : WalletDb) (x : c.reply) (db' : WalletDb) : Prop :=
  (∃ e, x = .error e) ∧ db' = db

end ThalosBackend.Wallets
