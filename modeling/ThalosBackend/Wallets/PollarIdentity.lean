import ThalosBackend.Wallets.BindingSafety

/-!
# Rows with a Pollar identity

`linkWallet` on a database in which any columns of `user_wallets` are missing: an insert that names one
of them fails with `PGRST204`. The row is put together from the request and from the row of the login,
and inserted again with less of it when the insert fails.

Whatever is missing, the row in the end names the Pollar user of the login, under the key of the login,
or no Pollar user at all (`linkWallet_pollar`).
-/

set_option autoImplicit false

namespace ThalosBackend.Wallets

open Js (Timestamp nonEmpty nonEmpty_eq_some)
open Calls (ask Runs Ensures ensures_bind)

/-! ## Missing columns -/

/-- The columns that an insert can name. -/
inductive WalletColumn where
  | userId
  | walletAddress
  | walletType
  | label
  | isPrimary
  | isVerified
  | verifiedAt
  | authProvider
  | pollarUserId
  | cAddress
  deriving DecidableEq

/-- The insert names the column. The identity columns are named when there is something to say. -/
def NewWallet.names (row : NewWallet) : WalletColumn → Bool
  | .authProvider => row.authProvider.isSome
  | .pollarUserId => row.pollarUserId.isSome
  | .cAddress => row.cAddress.isSome
  | _ => true

/-- The database without these columns. -/
def WalletDb.withoutColumns (db : WalletDb) (missing : Finset WalletColumn) : WalletDb :=
  { db with columns := ⟨.authProvider ∉ missing, .pollarUserId ∉ missing, .cAddress ∉ missing⟩ }

/-- A query on a database without these columns. Any query may fail. -/
def Lacking (missing : Finset WalletColumn) (c : WalletCall) (db : WalletDb) (x : c.reply)
    (db' : WalletDb) : Prop :=
  match c, x with
  | .insertWallet row, x =>
      if ∃ column ∈ missing, row.names column then
        (∃ message, x = .error ⟨"PGRST204", message⟩) ∧ db' = db
      else Answers (.insertWallet row) db x db' ∨ Fails (.insertWallet row) db x db'
  | c, x => Answers c db x db' ∨ Fails c db x db'

/-- A row can say this about the login of its user: it names the Pollar user of the login, under the key
of the login, or no Pollar user. -/
structure LoginIdentity (db : WalletDb) (userId walletAddress : String)
    (authProvider : Option AuthProvider) (pollarUserId : Option String) : Prop where
  publicKey : authProvider = some .pollar → db.publicKey userId = some walletAddress
  pollarUser : ∀ id, pollarUserId = some id →
    (db.authUsers userId).bind AuthUser.pollarUserId = some id
  other : authProvider ≠ some .pollar → pollarUserId = none

variable {missing : Finset WalletColumn} {env : WalletEnv} {now : Timestamp} {db db' : WalletDb}
  {userId walletAddress : String} {dto : LinkWalletDto} {authProvider : Option AuthProvider}
  {pollarUserId : Option String}

namespace LoginIdentity

/-- No login is named. -/
theorem anonymous : LoginIdentity db userId walletAddress none none :=
  ⟨nofun, nofun, fun _ => rfl⟩

/-- Accesly is named. -/
theorem accesly : LoginIdentity db userId walletAddress (some .accesly) none :=
  ⟨nofun, nofun, fun _ => rfl⟩

/-- The row without its Pollar user. -/
theorem withoutUser (h : LoginIdentity db userId walletAddress authProvider pollarUserId) :
    LoginIdentity db userId walletAddress authProvider none :=
  ⟨h.publicKey, nofun, fun _ => rfl⟩

end LoginIdentity

/-- The row says so. -/
abbrev UserWallet.OfLogin (w : UserWallet) (db : WalletDb) : Prop :=
  LoginIdentity db w.userId w.walletAddress w.authProvider w.pollarUserId

/-- The insert says so. -/
abbrev NewWallet.OfLogin (row : NewWallet) (db : WalletDb) : Prop :=
  LoginIdentity db row.userId row.walletAddress row.authProvider row.pollarUserId

/-! ## The queries -/

/-- The row of the login is read as it is, or not at all. -/
theorem lacking_readAuthUser {x : WalletCall.reply (.readAuthUser userId)}
    (h : Lacking missing (.readAuthUser userId) db x db') :
    db' = db ∧ ∀ user, x = .ok user → user = db.authUsers userId := by
  rcases h with ⟨rfl, rfl⟩ | ⟨⟨e, rfl⟩, rfl⟩
  · exact ⟨rfl, fun user huser => (Except.ok.inj huser).symm⟩
  · exact ⟨rfl, nofun⟩

/-- An insert adds the row it names, or nothing. -/
theorem lacking_insertWallet {row : NewWallet} {x : WalletCall.reply (.insertWallet row)}
    (h : Lacking missing (.insertWallet row) db x db') :
    ((∃ e, x = .error e) ∧ db' = db) ∨
      ∃ id created, x = .ok (row.row id created) ∧
        db'.wallets = db.wallets ++ [row.row id created] := by
  simp only [Lacking] at h
  split_ifs at h with hmissing
  · obtain ⟨⟨message, rfl⟩, rfl⟩ := h
    exact .inl ⟨⟨_, rfl⟩, rfl⟩
  · rcases h with h | h
    · simp only [Answers] at h
      split_ifs at h
      · exact .inl ⟨⟨_, h.1⟩, h.2⟩
      · obtain ⟨id, created, h⟩ := h
        split_ifs at h
        · exact .inr ⟨id, created, h.1, by rw [h.2]⟩
        · exact .inl ⟨⟨_, h.1⟩, h.2⟩
    · exact .inl h

/-! ## The branches -/

/-- The check on a Pollar user passes for the one of the login, under the key of the login. -/
theorem assertPollarOwnership_login {claimed : String} :
    Ensures (Lacking missing) (assertPollarOwnership userId walletAddress claimed) db
      fun out db' => db' = db ∧
        (out = .ok () → LoginIdentity db userId walletAddress (some .pollar) (some claimed)) := by
  refine Calls.ensures_ask fun x db' hexec => ?_
  obtain ⟨rfl, hread⟩ := lacking_readAuthUser hexec
  cases x with
  | error e => exact ⟨rfl, nofun⟩
  | ok user =>
      obtain rfl := hread user rfl
      simp only
      split_ifs with hkey huser
      · exact ⟨rfl, nofun⟩
      · exact ⟨rfl, nofun⟩
      · refine ⟨rfl, fun _ => ⟨fun _ => not_not.mp hkey, fun id hid => ?_, fun h => absurd rfl h⟩⟩
        obtain rfl := Option.some.inj hid
        exact (nonEmpty_eq_some.mp (not_not.mp huser)).1

/-- What a branch of `linkWallet` says about the login. -/
abbrev LinkIdentity.OfLogin (identity : LinkIdentity) (db : WalletDb) (userId : String)
    (dto : LinkWalletDto) : Prop :=
  LoginIdentity db userId dto.walletAddress identity.authProvider (nonEmpty identity.pollarUserId)

/-- A branch reads only, and what it resolves is what the login says. -/
abbrev Resolves (missing : Finset WalletColumn) (db : WalletDb) (userId : String)
    (dto : LinkWalletDto) (p : WalletProgram LinkIdentity) : Prop :=
  Ensures (Lacking missing) p db fun out db' => db' = db ∧
    ∀ identity, out = .ok identity → identity.OfLogin db userId dto

theorem resolves_fail {e : HttpException} : Resolves missing db userId dto (.fail e) :=
  ⟨rfl, nofun⟩

theorem linkCustodial_resolves : Resolves missing db userId dto (linkCustodial now userId dto) := by
  unfold linkCustodial
  split_ifs with huser hpollar haccesly
  · exact resolves_fail
  · exact resolves_fail
  · exact resolves_fail
  · split
    · rename_i claimed hprovider hclaimed
      refine ensures_bind.mpr (assertPollarOwnership_login.mono fun out db' h => ?_)
      obtain ⟨rfl, hok⟩ := h
      refine ⟨fun _ hout => ⟨rfl, fun identity hidentity => ?_⟩, fun e _ => ⟨rfl, nofun⟩⟩
      obtain rfl := Except.ok.inj hidentity
      change LoginIdentity db' userId dto.walletAddress dto.authProvider (nonEmpty dto.pollarUserId)
      rw [hprovider, hclaimed]
      exact hok hout
    · rename_i hno
      refine ⟨rfl, fun identity hidentity => ?_⟩
      obtain rfl := Except.ok.inj hidentity
      change LoginIdentity db userId dto.walletAddress dto.authProvider (nonEmpty dto.pollarUserId)
      -- without a Pollar user, and not by Pollar
      cases hclaimed : nonEmpty dto.pollarUserId with
      | none =>
          refine ⟨fun hprovider => absurd ⟨hprovider, hclaimed⟩ hpollar, nofun, fun _ => rfl⟩
      | some claimed =>
          have hprovider : dto.authProvider = some .pollar := by
            by_contra hne
            exact huser ⟨by simp [hclaimed], hne⟩
          exact absurd hclaimed (hno claimed hprovider)

theorem linkAccesly_resolves : Resolves missing db userId dto (linkAccesly now userId dto) := by
  unfold linkAccesly
  split_ifs with hc hprovider huser
  · exact resolves_fail
  · exact resolves_fail
  · exact resolves_fail
  · refine Calls.ensures_ask fun x db' hexec => ?_
    obtain ⟨rfl, -⟩ := lacking_readAuthUser hexec
    split_ifs
    · exact resolves_fail
    · refine ⟨rfl, fun identity hidentity => ?_⟩
      obtain rfl := Except.ok.inj hidentity
      exact LoginIdentity.accesly

theorem linkPollar_resolves : Resolves missing db userId dto (linkPollar now userId dto) := by
  unfold linkPollar
  split
  · exact resolves_fail
  · rename_i claimed hclaimed
    refine ensures_bind.mpr (assertPollarOwnership_login.mono fun out db' h => ?_)
    obtain ⟨rfl, hok⟩ := h
    refine ⟨fun _ hout => ⟨rfl, fun identity hidentity => ?_⟩, fun e _ => ⟨rfl, nofun⟩⟩
    obtain rfl := Except.ok.inj hidentity
    have hsome : nonEmpty (some claimed) = some claimed :=
      nonEmpty_eq_some.mpr ⟨rfl, (nonEmpty_eq_some.mp hclaimed).2⟩
    change LoginIdentity db' userId dto.walletAddress (some .pollar) (nonEmpty (some claimed))
    rw [hsome]
    exact hok hout

/-- Every branch resolves what the login says. -/
theorem linkIdentity_resolves : Resolves missing db userId dto (linkIdentity env now userId dto) := by
  unfold linkIdentity
  split
  · exact linkCustodial_resolves
  · exact linkAccesly_resolves
  · split_ifs with hpollar
    · exact linkPollar_resolves
    · -- a wallet that signs names no login
      refine Calls.ensures_ofExcept.mpr ⟨rfl, fun identity hidentity => ?_⟩
      obtain ⟨rfl, -⟩ := linkSigned_eq_ok.mp hidentity
      exact LoginIdentity.anonymous

/-! ## The insert -/

/-- At most one row is new, and it says what the login says. -/
def OneOfLogin (db : WalletDb) (userId : String) (db' : WalletDb) : Prop :=
  db'.wallets = db.wallets ∨
    ∃ w, db'.wallets = db.wallets ++ [w] ∧ w.userId = userId ∧ w.OfLogin db

/-- The insert and its fallbacks add at most one row. -/
theorem insertLinked_oneOfLogin {row base : NewWallet} (hrow : row.OfLogin db)
    (hbase : base.OfLogin db) (huser : base.userId = row.userId) :
    Ensures (Lacking missing) (insertLinked row base) db fun _ db' =>
      OneOfLogin db row.userId db' := by
  -- whichever attempt succeeds, its row is the one new row
  have hone : ∀ new : NewWallet, new.OfLogin db → new.userId = row.userId →
      ∀ id created db', db'.wallets = db.wallets ++ [new.row id created] →
        OneOfLogin db row.userId db' := by
    intro new hnew huser id created db' hrows
    exact .inr ⟨new.row id created, hrows, huser, hnew⟩
  -- the last fallback inserts the row without any identity
  have hlast : ∀ e : DbError, Ensures (Lacking missing)
      (if isMissingColumn (.error e) then ask (WalletCall.insertWallet base)
        else pure (.error e) : WalletProgram (Reply UserWallet)) db fun _ db' =>
        OneOfLogin db row.userId db' := by
    intro e
    split_ifs
    · intro x db' hexec
      rcases lacking_insertWallet hexec with ⟨-, rfl⟩ | ⟨id, created, -, hrows⟩
      · exact .inl rfl
      · exact hone base hbase huser id created db' hrows
    · exact .inl rfl
  refine Calls.ensures_ask fun first db₁ hfirst => ?_
  rcases lacking_insertWallet hfirst with ⟨⟨e, rfl⟩, rfl⟩ | ⟨id, created, rfl, hrows⟩
  · split_ifs
    · -- once more, without the Pollar user
      refine Calls.ensures_ask fun second db₂ hsecond => ?_
      rcases lacking_insertWallet hsecond with ⟨⟨e', rfl⟩, rfl⟩ | ⟨id, created, rfl, hrows⟩
      · exact hlast e'
      · exact hone { row with pollarUserId := none } hrow.withoutUser rfl id created db₂ hrows
    · exact hlast e
  · -- a row that is there is not inserted again
    exact hone row hrow rfl id created db₁ hrows

/-- Naming the provider of the login changes no wallet. -/
theorem lacking_setWalletProvider {provider : AuthProvider}
    {x : WalletCall.reply (.setWalletProvider userId provider)}
    (h : Lacking missing (.setWalletProvider userId provider) db x db') : db'.wallets = db.wallets := by
  rcases h with ⟨-, rfl⟩ | ⟨-, rfl⟩ <;> rfl

/-- The rows that `linkWallet` puts together say what the branch has resolved. -/
theorem insertLinked_resolved {isPrimary : Bool} {identity : LinkIdentity}
    (h : identity.OfLogin db userId dto) :
    Ensures (Lacking missing) (insertLinked (identityRow userId dto isPrimary identity)
      (baseRow userId dto isPrimary identity)) db fun _ db' => OneOfLogin db userId db' := by
  have hrow : (identityRow userId dto isPrimary identity).OfLogin db := h
  have hbase : (baseRow userId dto isPrimary identity).OfLogin db := LoginIdentity.anonymous
  exact insertLinked_oneOfLogin hrow hbase rfl

/-- What is done after the insert changes no wallet. -/
theorem linkWallet_oneOfLogin :
    Ensures (Lacking missing) (linkWallet env now userId dto) db fun _ db' =>
      OneOfLogin db userId db' := by
  refine Calls.ensures_ask fun existing db₁ hfind => ?_
  obtain rfl : db₁ = db := by rcases hfind with ⟨-, rfl⟩ | ⟨-, rfl⟩ <;> rfl
  split
  · exact .inl rfl
  · refine Calls.ensures_ask fun count db₂ hcount => ?_
    obtain rfl : db₂ = db₁ := by rcases hcount with ⟨-, rfl⟩ | ⟨-, rfl⟩ <;> rfl
    -- nothing was written so far, so the login is still that of the first store
    refine ensures_bind.mpr (linkIdentity_resolves.mono fun out db₃ h => ?_)
    obtain ⟨rfl, hidentity⟩ := h
    refine ⟨fun identity hout => ?_, fun e _ => .inl rfl⟩
    refine ensures_bind.mpr ((insertLinked_resolved (hidentity identity hout)).mono
      fun out db₄ hone => ?_)
    refine ⟨fun reply _ => ?_, fun e _ => hone⟩
    split
    · split_ifs <;> exact hone
    · split
      · exact hone
      · intro x db₅ hprovider
        change OneOfLogin db₃ userId db₅
        rw [OneOfLogin, lacking_setWalletProvider hprovider]
        exact hone

/-! ## The result -/

/-- **Pollar identity.** Whatever columns are missing, a link inserts at most one row. A row by Pollar is
under the key of its user's login, a Pollar user it names is the one of the login, and a row that is not
by Pollar names none. -/
theorem linkWallet_pollar (env : WalletEnv) (now : Timestamp) (userId : String) (dto : LinkWalletDto)
    (db : WalletDb) (missing : Finset WalletColumn) {out : Except HttpException WalletResult}
    {db' : WalletDb}
    (hrun : Runs (Lacking missing) (linkWallet env now userId dto) (db.withoutColumns missing) out
      db') : db'.wallets = db.wallets ∨ ∃ w, db'.wallets = db.wallets ++ [w] ∧ w.userId = userId ∧
      (w.authProvider = some .pollar → db.publicKey userId = some w.walletAddress) ∧
      (∀ id, w.pollarUserId = some id →
        (db.authUsers userId).bind AuthUser.pollarUserId = some id) ∧
      (w.authProvider ≠ some .pollar → w.pollarUserId = none) := by
  rcases Calls.ensures_iff.mp linkWallet_oneOfLogin _ _ hrun with hrows | ⟨w, hrows, huser, hlogin⟩
  · exact .inl hrows
  · subst huser
    exact .inr ⟨w, hrows, rfl, hlogin.publicKey, hlogin.pollarUser, hlogin.other⟩

/-! ### A link before migration 013 -/

/-- The link of the wallet that Pollar made for the user. -/
def pollarLink : LinkWalletDto where
  walletAddress := "GBXFXNDLV4LSWA4VB7YIL5GBD7BVNR22SGBTDKMO2SBZZHDXSKZYCP7L"
  walletType := .custodial
  label := none
  signedMessage := none
  signature := none
  authProvider := some .pollar
  pollarUserId := some "pollar-user-1"
  cAddress := none

/-- The login has this wallet and this Pollar user; nothing is linked. -/
def pollarDb : WalletDb where
  wallets := []
  authUsers := fun _ => some ⟨some pollarLink.walletAddress, pollarLink.pollarUserId, none⟩
  columns := ⟨true, true, true⟩

/-- The row of the link, without its Pollar user. -/
def pollarWallet (now : Timestamp) : UserWallet :=
  ({ identityRow "user-1" pollarLink true ⟨true, some now, some .pollar, pollarLink.pollarUserId⟩ with
    pollarUserId := none }).row "wallet-1" now

/-- Without the column `pollar_user_id` the wallet is linked at the second attempt. -/
theorem pollarLink_runs (env : WalletEnv) (now : Timestamp) :
    ∃ out db', Runs (Lacking {.pollarUserId}) (linkWallet env now "user-1" pollarLink)
      (pollarDb.withoutColumns {.pollarUserId}) out db' ∧ db'.wallets = [pollarWallet now] := by
  let db := pollarDb.withoutColumns {.pollarUserId}
  let linked : WalletDb := { db with wallets := [pollarWallet now] }
  have hfind : Lacking {.pollarUserId} (.findWallet "user-1" pollarLink.walletAddress) db (.ok none)
      db := .inl ⟨rfl, rfl⟩
  have hcount : Lacking {.pollarUserId} (.countWallets "user-1") db (.ok (0 : ℕ)) db :=
    .inl ⟨rfl, rfl⟩
  have hlogin : Lacking {.pollarUserId} (.readAuthUser "user-1") db (.ok (db.authUsers "user-1")) db :=
    .inl ⟨rfl, rfl⟩
  have hrefused : Lacking {.pollarUserId} (.insertWallet (identityRow "user-1" pollarLink true
      ⟨true, some now, some .pollar, pollarLink.pollarUserId⟩)) db (.error missingColumn) db := by
    have hnames : ∃ column ∈ ({.pollarUserId} : Finset WalletColumn),
        (identityRow "user-1" pollarLink true
          ⟨true, some now, some .pollar, pollarLink.pollarUserId⟩).names column :=
      ⟨.pollarUserId, Finset.mem_singleton_self _, rfl⟩
    rw [Lacking, if_pos hnames]
    exact ⟨⟨_, rfl⟩, rfl⟩
  have hlinked : Lacking {.pollarUserId} (.insertWallet
      { identityRow "user-1" pollarLink true ⟨true, some now, some .pollar, pollarLink.pollarUserId⟩
        with pollarUserId := none }) db (.ok (pollarWallet now)) linked := by
    rw [Lacking, if_neg (by simp [NewWallet.names])]
    exact .inl ⟨"wallet-1", now, rfl, rfl⟩
  have hprovider : Lacking {.pollarUserId} (.setWalletProvider "user-1" .pollar) linked
      (.error ⟨"42703", "column does not exist"⟩) linked := .inr ⟨⟨_, rfl⟩, rfl⟩
  refine ⟨_, linked, ⟨_, _, hfind, _, _, hcount, _, _, hlogin, _, _, hrefused, _, _, hlinked,
    _, _, hprovider, rfl, rfl⟩, rfl⟩

/-- The wallet that is linked then is by Pollar, under the key of the login. -/
theorem linkWallet_pollar_pending :
    ∃ out db' w, Runs (Lacking {.pollarUserId}) (linkWallet plainEnv 0 "user-1" pollarLink)
      (pollarDb.withoutColumns {.pollarUserId}) out db' ∧ db'.wallets = [w] ∧
        w.authProvider = some .pollar ∧ pollarDb.publicKey "user-1" = some w.walletAddress := by
  obtain ⟨out, db', hrun, hrows⟩ := pollarLink_runs plainEnv 0
  refine ⟨out, db', pollarWallet 0, hrun, hrows, rfl, ?_⟩
  rcases linkWallet_pollar plainEnv 0 "user-1" pollarLink pollarDb {.pollarUserId} hrun with
    h | ⟨w, h, -, hkey, -⟩
  · rw [hrows] at h
    cases h
  · rw [hrows] at h
    obtain rfl : pollarWallet 0 = w := by simpa [pollarDb] using h
    exact hkey rfl

end ThalosBackend.Wallets
