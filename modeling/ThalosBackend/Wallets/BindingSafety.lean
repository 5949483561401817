import ThalosBackend.Library.CallThreads
import ThalosBackend.Wallets.OwnershipProof

/-!
# Which wallets a user is bound to

Requests of any users link, verify, update and unlink wallets; their queries interleave, any query may
fail, and logins write `auth_users` between them. The store records every row `linkWallet` inserts,
with the request and with the key the user was logged in with at that moment.

Every branch of `linkWallet` asks for a proof but one: a custodial wallet that names no login is
inserted as it is. In the runs in which no such request goes through for an address that is neither
the user's key nor linked already, every inserted row was proven (`insertions_proven`), and
`resolveUserWallets` returns proven addresses only.
-/

set_option autoImplicit false

namespace ThalosBackend.Wallets

open Js (Value Timestamp nonEmpty)
open Calls (Every Task Serving)
open Threads (Config Label)

/-! ## Requests and their interleavings -/

/-- What a user asks for. -/
inductive WalletOp where
  | link (dto : LinkWalletDto)
  | verify (walletId : String) (dto : VerifyWalletDto)
  | update (walletId : String) (dto : UpdateWalletDto)
  | unlink (walletId : String)
  deriving DecidableEq

structure WalletRequest where
  userId : String
  now : Timestamp
  op : WalletOp
  deriving DecidableEq

/-- What a request is answered with. -/
inductive WalletAnswer where
  | wallet (result : WalletResult)
  | unlinked (result : UnlinkResult)

/-- The operation behind a request. -/
def WalletRequest.program (env : WalletEnv) (req : WalletRequest) : WalletProgram WalletAnswer :=
  match req.op with
  | .link dto => do return .wallet (← linkWallet env req.now req.userId dto)
  | .verify walletId dto => do return .wallet (← verifyWallet env req.now req.userId walletId dto)
  | .update walletId dto => do return .wallet (← updateWallet req.now req.userId walletId dto)
  | .unlink walletId => do return .unlinked (← unlinkWallet req.userId walletId)

/-- A row that `linkWallet` inserted, for which request, and the user's key at that moment. -/
structure Insertion where
  wallet : UserWallet
  request : WalletRequest
  publicKey : Option String

structure WalletStore where
  db : WalletDb
  insertions : List Insertion

/-- The record after an answered query. -/
def WalletStore.record (s : WalletStore) (req : WalletRequest) :
    (c : WalletCall) → c.reply → List Insertion
  | .insertWallet _, .ok w => ⟨w, req, s.db.publicKey w.userId⟩ :: s.insertions
  | _, _ => s.insertions

/-- A query is answered, or fails. -/
inductive WalletAct where
  | answer
  | fail
  deriving DecidableEq

/-- A query, in the database alone. -/
def WalletAct.exec (a : WalletAct) (c : WalletCall) (db : WalletDb) (x : c.reply) (db' : WalletDb) :
    Prop :=
  match a with
  | .answer => Answers c db x db'
  | .fail => Fails c db x db'

/-- A login writes the row of its user. -/
structure Login where
  userId : String
  user : AuthUser

def WalletDb.login (db : WalletDb) (l : Login) : WalletDb :=
  { db with authUsers := fun u => if u = l.userId then some l.user else db.authUsers u }

/-- The requests. At the beginning no wallet is linked; who has an account, and which columns there
are, is open. -/
def walletServing (env : WalletEnv) :
    Serving WalletRequest HttpException WalletCall WalletCall.reply WalletAnswer WalletStore WalletAct
      Login where
  init s := s.db.wallets = [] ∧ s.insertions = []
  program := WalletRequest.program env
  exec a req c s x s' := a.exec c s.db x s'.db ∧ s'.insertions = s.record req c x
  env l s s' := s' = { s with db := s.db.login l }

/-- Names of requests. -/
abbrev RequestId := ℕ

abbrev WalletConfig :=
  Config WalletStore RequestId
    (Task WalletRequest HttpException WalletCall WalletCall.reply WalletAnswer)

abbrev WalletLabel :=
  Label RequestId (Task WalletRequest HttpException WalletCall WalletCall.reply WalletAnswer)
    WalletAct Login

/-- The step system of the requests. -/
def walletSystem (env : WalletEnv) : StepSystem WalletConfig WalletLabel :=
  (walletServing env).threads.system RequestId

/-! ## Proofs -/

/-- The row was inserted with a proof that its user owns its address: the user was logged in with it,
or the request had a signed challenge for exactly the two. -/
def Insertion.Proven (env : WalletEnv) (i : Insertion) : Prop :=
  i.publicKey = some i.wallet.walletAddress ∨
    ∃ dto m s payload, i.request.op = .link dto ∧ dto.signedMessage = some m ∧
      dto.signature = some s ∧
      ProvesOwnership env i.request.now i.wallet.userId i.wallet.walletAddress m s payload

/-- The user has proven to own the address. -/
def WalletStore.Proved (env : WalletEnv) (s : WalletStore) (userId walletAddress : String) : Prop :=
  s.db.publicKey userId = some walletAddress ∨
    ∃ i ∈ s.insertions, i.wallet.userId = userId ∧ i.wallet.walletAddress = walletAddress ∧
      i.Proven env

/-- A custodial wallet without a login behind it: the branch of `linkWallet` that proves nothing. -/
def LinkWalletDto.Bare (dto : LinkWalletDto) : Prop :=
  dto.walletType = .custodial ∧ dto.authProvider = none ∧ nonEmpty dto.pollarUserId = none

instance (dto : LinkWalletDto) : Decidable dto.Bare :=
  inferInstanceAs (Decidable (_ ∧ _ ∧ _))

/-- The link asks for a custodial wallet, without a login behind it, under an address that is not the
user's key. -/
def WalletRequest.Unproven (req : WalletRequest) (publicKey : Option String) (address : String) :
    Prop :=
  ∃ dto, req.op = .link dto ∧ dto.Bare ∧ dto.walletAddress = address ∧ publicKey ≠ some address

/-- A step that the result is about. A link of an unproven custodial wallet finds the address linked
to the user already, and nobody logs in in the middle of an own link. -/
def CustodialLinked (c : WalletConfig) : WalletLabel → Prop
  | .start _ _ => True
  | .act t a => ∀ k userId address next, c.threads t = some k →
      k.rest = .call (.findWallet userId address) next →
      k.request.Unproven (c.shared.db.publicKey k.request.userId) address →
        a = .answer ∧ ∃ w, c.shared.db.wallets.filter
          (fun w => w.userId = userId ∧ w.walletAddress = address) = [w]
  | .env l => ∀ t k, c.threads t = some k → k.rest.InProgress → k.request.userId ≠ l.userId

/-! ## What a program asks for -/

/-- What a query may be answered, for a user with this key. -/
def Consistent (req : WalletRequest) (publicKey : Option String) : (c : WalletCall) → c.reply → Prop
  | .readAuthUser userId, x => userId = req.userId →
      ∀ user, x = .ok user → user.bind AuthUser.walletPublicKey = publicKey
  | .findWallet _ address, x => req.Unproven publicKey address → ∃ w, x = .ok (some w)
  | _, _ => True

/-- An insert is for the user of the request, and proven. -/
def ProvenInsert (env : WalletEnv) (req : WalletRequest) (publicKey : Option String)
    (c : WalletCall) : Prop :=
  ∀ row, c = .insertWallet row → row.userId = req.userId ∧
    (publicKey = some row.walletAddress ∨
      ∃ dto m s payload, req.op = .link dto ∧ dto.signedMessage = some m ∧ dto.signature = some s ∧
        ProvesOwnership env req.now row.userId row.walletAddress m s payload)

/-- Along every path, what is left of a program inserts proven rows only. -/
abbrev Safe (env : WalletEnv) (req : WalletRequest) (publicKey : Option String) {α : Type}
    (post : α → Prop) (p : WalletProgram α) : Prop :=
  Every (Consistent req publicKey) (ProvenInsert env req publicKey) post p

variable {env : WalletEnv} {req : WalletRequest} {publicKey : Option String}

/-- A query other than an insert needs no proof. -/
theorem provenInsert_of_ne {c : WalletCall} (h : ∀ row, c ≠ .insertWallet row) :
    ProvenInsert env req publicKey c := by
  intro row hc
  exact absurd hc (h row)

/-- What a branch of `linkWallet` has shown when it ends. -/
def BranchProof (env : WalletEnv) (req : WalletRequest) (publicKey : Option String)
    (dto : LinkWalletDto) : Prop :=
  publicKey = some dto.walletAddress ∨ dto.Bare ∨
    ∃ m s payload, dto.signedMessage = some m ∧ dto.signature = some s ∧
      ProvesOwnership env req.now req.userId dto.walletAddress m s payload

/-- The check on a Pollar wallet ends only for the user's key. -/
theorem assertPollarOwnership_safe {walletAddress pollarUserId : String} :
    Safe env req publicKey (fun _ => publicKey = some walletAddress)
      (assertPollarOwnership req.userId walletAddress pollarUserId) := by
  simp only [assertPollarOwnership, Calls.ask_bind, Safe, Calls.every_call]
  refine ⟨provenInsert_of_ne (by simp), fun x hx => ?_⟩
  split
  · exact Calls.every_fail _
  · split_ifs with hkey hpollar
    · exact Calls.every_fail _
    · exact Calls.every_fail _
    · rw [← hx rfl _ rfl]
      exact not_not.mp hkey

theorem linkCustodial_safe {dto : LinkWalletDto} (htype : dto.walletType = .custodial) :
    Safe env req publicKey (fun _ => BranchProof env req publicKey dto)
      (linkCustodial req.now req.userId dto) := by
  unfold linkCustodial
  split_ifs with hpollar hprovider haccesly
  · exact Calls.every_fail _
  · exact Calls.every_fail _
  · exact Calls.every_fail _
  · split
    · -- a login by Pollar is behind it
      refine Calls.every_bind.mpr (assertPollarOwnership_safe.mono (fun _ _ h => h) (fun _ h => h) ?_)
      intro _ hkey
      exact .inl hkey
    · -- nothing is
      rename_i hno
      have hbare : dto.authProvider = none ∧ nonEmpty dto.pollarUserId = none := by
        cases hp : dto.authProvider with
        | none => simp_all
        | some provider =>
            cases provider with
            | accesly => exact absurd hp haccesly
            | pollar =>
                cases hid : nonEmpty dto.pollarUserId with
                | none => exact absurd ⟨hp, hid⟩ hprovider
                | some pollarUserId => exact absurd hid (hno pollarUserId hp)
      exact .inr (.inl ⟨htype, hbare⟩)

theorem linkAccesly_safe {dto : LinkWalletDto} :
    Safe env req publicKey (fun _ => BranchProof env req publicKey dto)
      (linkAccesly req.now req.userId dto) := by
  unfold linkAccesly
  split_ifs with hc hprovider hpollar
  · exact Calls.every_fail _
  · exact Calls.every_fail _
  · exact Calls.every_fail _
  · simp only [Calls.ask_bind, Safe, Calls.every_call]
    refine ⟨provenInsert_of_ne (by simp), fun x hx => ?_⟩
    split_ifs with hkey
    · exact Calls.every_fail _
    · cases x with
      | error e => simp [Reply.data] at hkey
      | ok user =>
          refine .inl ?_
          rw [← hx rfl user rfl]
          exact not_not.mp hkey

theorem linkPollar_safe {dto : LinkWalletDto} :
    Safe env req publicKey (fun _ => BranchProof env req publicKey dto)
      (linkPollar req.now req.userId dto) := by
  unfold linkPollar
  split
  · exact Calls.every_fail _
  · refine Calls.every_bind.mpr (assertPollarOwnership_safe.mono (fun _ _ h => h) (fun _ h => h) ?_)
    intro _ hkey
    exact .inl hkey

/-- Every branch ends with a proof, but for the bare custodial one. -/
theorem linkIdentity_safe {dto : LinkWalletDto} :
    Safe env req publicKey (fun _ => BranchProof env req publicKey dto)
      (linkIdentity env req.now req.userId dto) := by
  unfold linkIdentity
  split
  · rename_i htype
    exact linkCustodial_safe htype
  · exact linkAccesly_safe
  · split_ifs with hpollar
    · exact linkPollar_safe
    · refine Calls.every_ofExcept.mpr fun identity hidentity => ?_
      obtain ⟨-, -, -, m, s, payload, hm, hs, hproof⟩ := linkSigned_eq_ok.mp hidentity
      exact .inr (.inr ⟨m, s, payload, hm, hs, hproof⟩)

/-- The insert and its two fallbacks name the same user and address. -/
theorem insertLinked_safe {row base : NewWallet} {post : Reply UserWallet → Prop}
    (hrow : ProvenInsert env req publicKey (.insertWallet row))
    (huser : base.userId = row.userId) (haddress : base.walletAddress = row.walletAddress)
    (hpost : ∀ x, post x) : Safe env req publicKey post (insertLinked row base) := by
  have hcopy : ∀ copy : NewWallet, copy.userId = row.userId →
      copy.walletAddress = row.walletAddress →
      ProvenInsert env req publicKey (.insertWallet copy) := by
    intro copy hu ha new hnew
    obtain rfl : copy = new := by simpa using hnew
    rw [hu, ha]
    exact hrow row rfl
  have hlast : ∀ second : Reply UserWallet, Safe env req publicKey post
      (if isMissingColumn second then Calls.ask (WalletCall.insertWallet base)
        else pure second : WalletProgram (Reply UserWallet)) := by
    intro second
    split_ifs
    · exact ⟨hcopy base huser haddress, fun x _ => hpost x⟩
    · exact hpost second
  simp only [insertLinked, Calls.ask_bind, Safe, Calls.every_call]
  refine ⟨hrow, fun first _ => ?_⟩
  split_ifs with hfallback
  · exact ⟨hcopy { row with pollarUserId := none } rfl rfl, fun second _ => hlast second⟩
  · exact hlast first

/-- `linkWallet` inserts proven rows only, for a user whose key stays the same. -/
theorem linkWallet_safe {dto : LinkWalletDto} (hop : req.op = .link dto) :
    Safe env req publicKey (fun _ => True) (linkWallet env req.now req.userId dto) := by
  simp only [linkWallet, Calls.ask_bind, Safe, Calls.every_call]
  refine ⟨provenInsert_of_ne (by simp), fun existing hexisting => ?_⟩
  split
  · trivial
  · rename_i hnone
    -- a bare wallet that is not linked yet is under the user's key
    have hbare : dto.Bare → publicKey = some dto.walletAddress := by
      intro hbare
      by_contra hkey
      obtain ⟨w, rfl⟩ := hexisting ⟨dto, hop, hbare, rfl, hkey⟩
      simp [Reply.data] at hnone
    refine ⟨provenInsert_of_ne (by simp), fun count _ => ?_⟩
    refine Calls.every_bind.mpr (linkIdentity_safe.mono (fun _ _ h => h) (fun _ h => h) ?_)
    intro identity hproof
    refine Calls.every_bind.mpr (insertLinked_safe ?_ rfl rfl fun reply => ?_)
    · intro row hrow
      obtain rfl := WalletCall.insertWallet.inj hrow
      refine ⟨rfl, ?_⟩
      rcases hproof with hkey | hb | ⟨m, s, payload, hm, hs, hproof⟩
      · exact .inl hkey
      · exact .inl (hbare hb)
      · exact .inr ⟨dto, m, s, payload, hop, hm, hs, hproof⟩
    · split
      · split_ifs <;> trivial
      · split
        · trivial
        · exact ⟨provenInsert_of_ne (by simp), fun _ _ => trivial⟩

/-- The other operations insert nothing. -/
theorem verifyWallet_safe {walletId : String} {dto : VerifyWalletDto} :
    Safe env req publicKey (fun _ => True) (verifyWallet env req.now req.userId walletId dto) := by
  simp only [verifyWallet, Calls.ask_bind, Safe, Calls.every_call]
  refine ⟨provenInsert_of_ne (by simp), fun existing _ => ?_⟩
  split
  · trivial
  · split_ifs
    · trivial
    · trivial
    · refine Calls.every_bind.mpr (Calls.every_ofExcept.mpr fun _ _ => ?_)
      exact ⟨provenInsert_of_ne (by simp), fun _ _ => trivial⟩

theorem updateWallet_safe {walletId : String} {dto : UpdateWalletDto} :
    Safe env req publicKey (fun _ => True) (updateWallet req.now req.userId walletId dto) := by
  simp only [updateWallet, Calls.ask_bind, Safe, Calls.every_call]
  refine ⟨provenInsert_of_ne (by simp), fun existing _ => ?_⟩
  split
  · trivial
  · split_ifs
    · refine ⟨provenInsert_of_ne (by simp), fun _ _ => ?_⟩
      exact ⟨provenInsert_of_ne (by simp), fun _ _ => trivial⟩
    · exact ⟨provenInsert_of_ne (by simp), fun _ _ => trivial⟩

theorem unlinkWallet_safe {walletId : String} :
    Safe env req publicKey (fun _ => True) (unlinkWallet req.userId walletId) := by
  simp only [unlinkWallet, Calls.ask_bind, Safe, Calls.every_call]
  refine ⟨provenInsert_of_ne (by simp), fun existing _ => ?_⟩
  split
  · trivial
  · split
    · trivial
    · refine ⟨provenInsert_of_ne (by simp), fun deleted _ => ?_⟩
      cases deleted with
      | error e => trivial
      | ok done =>
        simp only
        split
        · refine ⟨provenInsert_of_ne (by simp), fun remaining _ => ?_⟩
          simp only
          split
          · trivial
          · exact ⟨provenInsert_of_ne (by simp), fun _ _ => trivial⟩
        · trivial

/-- A request of any kind inserts proven rows only. -/
theorem program_safe (env : WalletEnv) (req : WalletRequest) (publicKey : Option String) :
    Safe env req publicKey (fun _ => True) (req.program env) := by
  unfold WalletRequest.program
  split
  · rename_i dto hop
    exact Calls.every_bind.mpr ((linkWallet_safe hop).mono (fun _ _ h => h) (fun _ h => h)
      fun _ _ => trivial)
  · exact Calls.every_bind.mpr (verifyWallet_safe.mono (fun _ _ h => h) (fun _ h => h)
      fun _ _ => trivial)
  · exact Calls.every_bind.mpr (updateWallet_safe.mono (fun _ _ h => h) (fun _ h => h)
      fun _ _ => trivial)
  · exact Calls.every_bind.mpr (unlinkWallet_safe.mono (fun _ _ h => h) (fun _ h => h)
      fun _ _ => trivial)

/-! ## What a query does -/

section Queries

variable {c : WalletCall} {db db' : WalletDb} {x : c.reply}

/-- An update by id does not write `auth_users`. -/
theorem updateOne_authUsers (db : WalletDb) (walletId : String) (f : UserWallet → UserWallet) :
    (db.updateOne walletId f).2.authUsers = db.authUsers := by
  simp only [WalletDb.updateOne]
  split
  · rfl
  · split_ifs <;> rfl

/-- No query of the module changes a key. -/
theorem Answers.publicKey_eq (h : Answers c db x db') : db'.publicKey = db.publicKey := by
  funext userId
  cases c with
  | setWalletProvider u provider =>
      obtain ⟨-, rfl⟩ := h
      by_cases hu : userId = u
      · cases ha : db.authUsers u <;> simp [WalletDb.publicKey, hu, ha]
      · simp [WalletDb.publicKey, hu]
  | insertWallet new =>
      simp only [Answers] at h
      split_ifs at h with hmissing
      · rw [h.2]
      · obtain ⟨id, created, h⟩ := h
        split_ifs at h
        · rw [h.2]
          rfl
        · rw [h.2]
  | markVerified walletId now =>
      have := congrArg Prod.snd h
      simp only at this
      rw [WalletDb.publicKey, this, updateOne_authUsers]
      rfl
  | updateWallet walletId updates =>
      have := congrArg Prod.snd h
      simp only at this
      rw [WalletDb.publicKey, this, updateOne_authUsers]
      rfl
  | setPrimary walletId =>
      simp only [Answers] at h
      split_ifs at h
      · rw [h.2]
        rfl
      · rw [h.2]
  | clearOtherPrimaries u walletId now => rw [h.2]; rfl
  | deleteWallet walletId u => rw [h.2]; rfl
  | _ => rw [h.2]

/-- The user and the address of a row, which no update touches. -/
def UserWallet.binding (w : UserWallet) : String × String := (w.userId, w.walletAddress)

/-- An update of rows keeps their bindings. -/
theorem mem_updateWhere_binding {p : UserWallet → Bool} {f : UserWallet → UserWallet}
    (hf : ∀ w, (f w).binding = w.binding) {rows : List UserWallet} {w : UserWallet}
    (hw : w ∈ Table.updateWhere p f rows) : ∃ old ∈ rows, old.binding = w.binding := by
  obtain ⟨old, hold, rfl⟩ := Table.mem_updateWhere.mp hw
  refine ⟨old, hold, ?_⟩
  split_ifs
  · exact (hf old).symm
  · rfl

theorem updateOne_binding {db : WalletDb} {walletId : String} {f : UserWallet → UserWallet}
    (hf : ∀ w, (f w).binding = w.binding) {w : UserWallet}
    (hw : w ∈ (db.updateOne walletId f).2.wallets) : ∃ old ∈ db.wallets, old.binding = w.binding := by
  simp only [WalletDb.updateOne] at hw
  split at hw
  · exact ⟨w, hw, rfl⟩
  · split_ifs at hw
    · exact mem_updateWhere_binding hf hw
    · exact ⟨w, hw, rfl⟩

/-- A row after a query has the binding of a row before it, or was inserted by it. -/
theorem Answers.mem_wallets (h : Answers c db x db') {w : UserWallet} (hw : w ∈ db'.wallets) :
    (∃ old ∈ db.wallets, old.binding = w.binding) ∨
      ∃ new, ∃ hc : c = .insertWallet new, hc ▸ x = .ok w := by
  cases c with
  | insertWallet new =>
      simp only [Answers] at h
      split_ifs at h with hmissing
      · rw [h.2] at hw
        exact .inl ⟨w, hw, rfl⟩
      · obtain ⟨id, created, h⟩ := h
        split_ifs at h
        · obtain ⟨rfl, rfl⟩ := h
          rcases List.mem_append.mp hw with hw | hw
          · exact .inl ⟨w, hw, rfl⟩
          · obtain rfl := List.mem_singleton.mp hw
            exact .inr ⟨new, rfl, rfl⟩
        · rw [h.2] at hw
          exact .inl ⟨w, hw, rfl⟩
  | markVerified walletId now =>
      have hdb : db' = _ := congrArg Prod.snd h
      rw [hdb] at hw
      refine .inl (updateOne_binding ?_ hw)
      exact fun _ => rfl
  | updateWallet walletId updates =>
      have hdb : db' = _ := congrArg Prod.snd h
      rw [hdb] at hw
      refine .inl (updateOne_binding ?_ hw)
      exact fun _ => rfl
  | setPrimary walletId =>
      simp only [Answers] at h
      split_ifs at h
      · rw [h.2] at hw
        refine .inl (mem_updateWhere_binding ?_ hw)
        exact fun _ => rfl
      · rw [h.2] at hw
        exact .inl ⟨w, hw, rfl⟩
  | clearOtherPrimaries u walletId now =>
      rw [h.2] at hw
      refine .inl (mem_updateWhere_binding ?_ hw)
      exact fun _ => rfl
  | deleteWallet walletId u =>
      rw [h.2] at hw
      exact .inl ⟨w, (List.mem_filter.mp hw).1, rfl⟩
  | setWalletProvider u provider =>
      rw [h.2] at hw
      exact .inl ⟨w, hw, rfl⟩
  | _ =>
      rw [h.2] at hw
      exact .inl ⟨w, hw, rfl⟩

/-- The row an insert returns is the row it was asked to insert. -/
theorem Answers.inserted {new : NewWallet} {w : UserWallet}
    (h : Answers (.insertWallet new) db (.ok w) db') :
    w.userId = new.userId ∧ w.walletAddress = new.walletAddress := by
  simp only [Answers] at h
  split_ifs at h with hmissing
  · cases h.1
  · obtain ⟨id, created, h⟩ := h
    split_ifs at h
    · cases h.1
      exact ⟨rfl, rfl⟩
    · cases h.1

variable {a : WalletAct}

theorem WalletAct.exec_publicKey (h : a.exec c db x db') : db'.publicKey = db.publicKey := by
  cases a with
  | answer => exact Answers.publicKey_eq h
  | fail => rw [h.2]

theorem WalletAct.exec_mem_wallets (h : a.exec c db x db') {w : UserWallet} (hw : w ∈ db'.wallets) :
    (∃ old ∈ db.wallets, old.binding = w.binding) ∨
      ∃ new, ∃ hc : c = .insertWallet new, hc ▸ x = .ok w := by
  cases a with
  | answer => exact Answers.mem_wallets h hw
  | fail =>
      rw [h.2] at hw
      exact .inl ⟨w, hw, rfl⟩

/-- Queries are answered as `Consistent` says, as long as links of bare custodial wallets find them
linked. -/
theorem WalletAct.exec_consistent (h : a.exec c db x db')
    (hfind : ∀ userId address, c = .findWallet userId address →
      req.Unproven (db.publicKey req.userId) address →
        a = .answer ∧ ∃ w, db.wallets.filter
          (fun w => w.userId = userId ∧ w.walletAddress = address) = [w]) :
    Consistent req (db.publicKey req.userId) c x := by
  cases c with
  | findWallet userId address =>
      intro hunproven
      obtain ⟨rfl, w, hw⟩ := hfind userId address rfl hunproven
      refine ⟨w, ?_⟩
      rw [h.1, hw]
      rfl
  | readAuthUser userId =>
      rintro rfl user rfl
      cases a with
      | answer =>
          obtain rfl := Except.ok.inj h.1
          rfl
      | fail =>
          obtain ⟨⟨e, he⟩, -⟩ := h
          cases he
  | _ => trivial

end Queries

/-! ## The invariant -/

/-- Every recorded insert was proven, every wallet was recorded, and what the requests in progress
still ask for is safe. -/
structure BindingInv (env : WalletEnv) (c : WalletConfig) : Prop where
  proven : ∀ i ∈ c.shared.insertions, i.Proven env
  recorded : ∀ w ∈ c.shared.db.wallets, ∃ i ∈ c.shared.insertions, i.wallet.binding = w.binding
  safe : ∀ t k, c.threads t = some k → k.rest.InProgress →
    Safe env k.request (c.shared.db.publicKey k.request.userId) (fun _ => True) k.rest

/-- Nothing that was recorded is forgotten. -/
theorem WalletStore.mem_record {s : WalletStore} {c : WalletCall} {x : c.reply} {i : Insertion}
    (h : i ∈ s.insertions) : i ∈ s.record req c x := by
  unfold WalletStore.record
  split
  · exact List.mem_cons_of_mem _ h
  · exact h

/-- What is recorded was recorded before, or is the answer to an insert. -/
theorem WalletStore.eq_of_mem_record {s : WalletStore} {c : WalletCall} {x : c.reply}
    {i : Insertion} (h : i ∈ s.record req c x) : i ∈ s.insertions ∨
      ∃ new w, ∃ hc : c = .insertWallet new, hc ▸ x = .ok w ∧
        i = ⟨w, req, s.db.publicKey w.userId⟩ := by
  unfold WalletStore.record at h
  split at h
  · rename_i new w
    rcases List.mem_cons.mp h with rfl | h
    · exact .inr ⟨new, w, rfl, rfl, rfl⟩
    · exact .inl h
  · exact .inl h

theorem BindingInv.init {c : WalletConfig} (h : (walletSystem env).init c) : BindingInv env c := by
  obtain ⟨⟨hwallets, hinsertions⟩, hthreads⟩ := h
  refine ⟨fun i hi => ?_, fun w hw => ?_, fun t k hk => ?_⟩
  · simp [hinsertions] at hi
  · simp [hwallets] at hw
  · simp [hthreads] at hk

/-- A call of one request keeps the invariant. -/
theorem BindingInv.act {c : WalletConfig} (hI : BindingInv env c) {t : RequestId} {a : WalletAct}
    {call : WalletCall} {cont : call.reply → WalletProgram WalletAnswer} {x : call.reply}
    {s : WalletStore} (hk : c.threads t = some ⟨req, .call call cont⟩)
    (hguard : CustodialLinked c (.act t a)) (hexec : a.exec call c.shared.db x s.db)
    (hrecord : s.insertions = c.shared.record req call x) :
    BindingInv env ⟨s, Function.update c.threads t (some ⟨req, cont x⟩)⟩ := by
  obtain ⟨hcall, hcont⟩ := hI.safe t _ hk trivial
  have hkey : s.db.publicKey = c.shared.db.publicKey := WalletAct.exec_publicKey hexec
  refine ⟨fun i hi => ?_, fun w hw => ?_, fun t' k hk' _ => ?_⟩
  · rw [hrecord] at hi
    rcases WalletStore.eq_of_mem_record hi with hi | ⟨new, w, rfl, rfl, rfl⟩
    · exact hI.proven i hi
    · -- the row is the one the program was allowed to insert
      have hinserted : w.userId = new.userId ∧ w.walletAddress = new.walletAddress := by
        cases a with
        | answer => exact Answers.inserted hexec
        | fail =>
            obtain ⟨⟨e, he⟩, -⟩ := hexec
            cases he
      obtain ⟨huser, hproof⟩ := hcall new rfl
      rcases hproof with hproof | ⟨dto, m, sg, payload, hop, hm, hs, hproof⟩
      · refine .inl ?_
        simp only [hinserted, huser, hproof]
      · refine .inr ⟨dto, m, sg, payload, hop, hm, hs, ?_⟩
        simp only [hinserted]
        exact hproof
  · simp only [hrecord]
    rcases WalletAct.exec_mem_wallets hexec hw with ⟨old, hold, hbinding⟩ | ⟨new, rfl, rfl⟩
    · obtain ⟨i, hi, hib⟩ := hI.recorded old hold
      exact ⟨i, WalletStore.mem_record hi, hib.trans hbinding⟩
    · exact ⟨_, List.mem_cons_self, rfl⟩
  · simp only [hkey]
    rcases Threads.update_eq_some hk' with ⟨-, h⟩ | ⟨-, h⟩
    · obtain rfl := Option.some.inj h
      refine hcont x (WalletAct.exec_consistent hexec fun userId address hc hunproven => ?_)
      subst hc
      exact hguard _ userId address cont hk rfl hunproven
    · rename_i hprogress
      exact hI.safe t' k h hprogress

theorem BindingInv.step {c c' : WalletConfig} {l : WalletLabel} (hI : BindingInv env c)
    (hguard : CustodialLinked c l) (h : (walletSystem env).step c l c') : BindingInv env c' := by
  cases Calls.step_cases h with
  | start t request hfree =>
      refine ⟨hI.proven, hI.recorded, fun t' k hk hprogress => ?_⟩
      rcases Threads.update_eq_some hk with ⟨-, h⟩ | ⟨-, h⟩
      · obtain rfl := Option.some.inj h
        exact program_safe env request _
      · exact hI.safe t' k h hprogress
  | act t a request call cont x s hk hexec =>
      exact hI.act hk hguard hexec.1 hexec.2
  | env login s henv =>
      obtain rfl : s = _ := henv
      refine ⟨hI.proven, hI.recorded, fun t k hk hprogress => ?_⟩
      -- whoever has a request in progress is not the one who logs in
      have hother := hguard t k hk hprogress
      have hkey : (c.shared.db.login login).publicKey k.request.userId =
          c.shared.db.publicKey k.request.userId := by
        simp [WalletDb.publicKey, WalletDb.login, hother]
      rw [hkey]
      exact hI.safe t k hk hprogress

/-! ## A bare custodial link -/

section BareLink

variable (env : WalletEnv) (publicKey : Option String)

/-- The link of a custodial wallet that names no login. -/
def bareLink : LinkWalletDto where
  walletAddress := "GBXFXNDLV4LSWA4VB7YIL5GBD7BVNR22SGBTDKMO2SBZZHDXSKZYCP7L"
  walletType := .custodial
  label := none
  signedMessage := none
  signature := none
  authProvider := none
  pollarUserId := none
  cAddress := none

def bareRequest : WalletRequest where
  userId := "7b6f8a52-0c3e-4d9b-9a61-2f5e8c1d4a70"
  now := 1767225600000
  op := .link bareLink

/-- Nothing is linked, and the account has this key. -/
def bareStore : WalletStore where
  db := {
    wallets := []
    authUsers := fun _ => some ⟨publicKey, none, none⟩
    columns := ⟨true, true, true⟩ }
  insertions := []

/-- The row of the link. -/
def bareWallet : UserWallet :=
  (identityRow bareRequest.userId bareLink true ⟨true, some bareRequest.now, none, none⟩).row
    "9d3f5f0e-6a4b-4f1e-8f53-0a1c2b3d4e5f" bareRequest.now

/-- The tables with it. -/
def bareLinked : WalletStore where
  db := { (bareStore publicKey).db with wallets := [bareWallet] }
  insertions := [⟨bareWallet, bareRequest, publicKey⟩]

/-- The link is inserted, whatever the key is. -/
theorem bareLink_reachable (guard : WalletConfig → WalletLabel → Prop)
    (hstart : guard ⟨bareStore publicKey, fun _ => none⟩
      (.start 0 ⟨bareRequest, bareRequest.program env⟩))
    (hact : ∀ rest, guard (Calls.alone 0 (bareStore publicKey) bareRequest rest) (.act 0 .answer)) :
    ∃ rest, ((walletSystem env).restrict guard).Reachable
      (Calls.alone 0 (bareLinked publicKey) bareRequest rest) := by
  have hbegin : ((walletSystem env).restrict guard).Reachable
      (Calls.alone 0 (bareStore publicKey) bareRequest (bareRequest.program env)) :=
    Calls.alone_start ⟨rfl, rfl⟩ hstart
  have hnone : (walletServing env).exec .answer bareRequest
      (.findWallet bareRequest.userId bareLink.walletAddress) (bareStore publicKey) (.ok none)
      (bareStore publicKey) := ⟨⟨rfl, rfl⟩, rfl⟩
  have hzero : (walletServing env).exec .answer bareRequest (.countWallets bareRequest.userId)
      (bareStore publicKey) (.ok (0 : ℕ)) (bareStore publicKey) := ⟨⟨rfl, rfl⟩, rfl⟩
  have hrow : (walletServing env).exec .answer bareRequest
      (.insertWallet (identityRow bareRequest.userId bareLink true
        ⟨true, some bareRequest.now, none, none⟩))
      (bareStore publicKey) (.ok bareWallet) (bareLinked publicKey) := by
    refine ⟨?_, rfl⟩
    refine ⟨"9d3f5f0e-6a4b-4f1e-8f53-0a1c2b3d4e5f", bareRequest.now, ?_⟩
    exact ⟨rfl, rfl⟩
  -- no wallet is found, none is counted, and the branch asks for nothing more
  have hfind := Calls.alone_act hbegin hnone (hact _)
  have hcount := Calls.alone_act hfind hzero (hact _)
  exact ⟨_, Calls.alone_act hcount hrow (hact _)⟩

end BareLink

/-! ## The result -/

/-- What `resolveUserWallets` returns was proven by the user. -/
theorem resolveUserWallets_proved {s : WalletStore}
    (hproven : ∀ i ∈ s.insertions, i.Proven env)
    (hrecorded : ∀ w ∈ s.db.wallets, ∃ i ∈ s.insertions, i.wallet.binding = w.binding)
    {userId : String} {addresses : List String} {db' : WalletDb}
    (hrun : Calls.Runs (fun c db x db' => ∃ a : WalletAct, a.exec c db x db')
      (resolveUserWallets userId) s.db (.ok addresses) db') :
    ∀ address ∈ addresses, s.Proved env userId address := by
  simp only [resolveUserWallets, Calls.ask_bind, Calls.runs_call, Calls.pure_eq, Calls.runs_done,
    Except.ok.injEq] at hrun
  obtain ⟨linked, db₁, ⟨a₁, hlinked⟩, legacy, db₂, ⟨a₂, hlegacy⟩, rfl, -⟩ := hrun
  intro address haddress
  rw [List.mem_eraseDups, List.mem_append] at haddress
  rcases haddress with haddress | haddress
  · -- a linked wallet
    cases linked with
    | error e => simp at haddress
    | ok rows =>
        obtain ⟨⟨w, hw, rfl⟩, -⟩ := by simpa using haddress
        have hmem : w ∈ s.db.walletsOf userId := by
          cases a₁ with
          | answer =>
              obtain ⟨⟨rows', hrows, hperm, -⟩, -⟩ := hlinked
              obtain rfl := Except.ok.inj hrows
              exact hperm.subset hw
          | fail =>
              obtain ⟨⟨e, he⟩, -⟩ := hlinked
              cases he
        obtain ⟨hw, huser⟩ := List.mem_filter.mp hmem
        obtain ⟨i, hi, hbinding⟩ := hrecorded w hw
        simp only [UserWallet.binding, Prod.mk.injEq] at hbinding
        exact .inr ⟨i, hi, hbinding.1.trans (by simpa using huser), hbinding.2, hproven i hi⟩
  · -- the key of the login
    have hkey : db₁.publicKey = s.db.publicKey := WalletAct.exec_publicKey hlinked
    cases a₂ with
    | answer =>
        obtain ⟨rfl, -⟩ := hlegacy
        have := (Js.nonEmpty_eq_some.mp (Option.mem_toList.mp haddress)).1
        refine .inl ?_
        rw [← hkey]
        exact this
    | fail =>
        obtain ⟨⟨e, rfl⟩, -⟩ := hlegacy
        simp [Reply.data, Js.nonEmpty] at haddress

/-- **Wallet binding.** In a run in which every link of a bare custodial wallet is for the user's key
or for an address the user has linked already, every row was inserted with a proof, and
`resolveUserWallets` returns only addresses the user has proven to own. -/
theorem insertions_proven (env : WalletEnv) {c : WalletConfig}
    (h : ((walletSystem env).restrict CustodialLinked).Reachable c) :
    (∀ i ∈ c.shared.insertions, i.Proven env) ∧
    ∀ userId addresses db', Calls.Runs (fun c db x db' => ∃ a : WalletAct, a.exec c db x db')
      (resolveUserWallets userId) c.shared.db (.ok addresses) db' →
        ∀ address ∈ addresses, c.shared.Proved env userId address := by
  have hI : BindingInv env c := StepSystem.invariant_of_steps
    (M := (walletSystem env).restrict CustodialLinked) (I := BindingInv env)
    (fun _ hinit => .init hinit) (fun _ _ _ _ hI hs => hI.step hs.1 hs.2) h
  refine ⟨hI.proven, fun userId addresses db' hrun => ?_⟩
  exact resolveUserWallets_proved hI.proven hI.recorded hrun


/-- A server without a secret, on which no signature is ever checked. -/
def plainEnv : WalletEnv where
  platform := {
    hmac := fun _ _ => ""
    decodeJson := fun _ => none
    isPublicKey := fun _ => false
    verify := fun _ _ _ => none }
  jwtSecret := none

/-- The link of the account's own key is one of these runs. -/
theorem insertions_proven_own_key :
    (∃ rest, ((walletSystem plainEnv).restrict CustodialLinked).Reachable
      (Calls.alone 0 (bareLinked (some bareLink.walletAddress)) bareRequest rest)) ∧
    ∀ i ∈ (bareLinked (some bareLink.walletAddress)).insertions, i.Proven plainEnv := by
  have hreach : ∃ rest, ((walletSystem plainEnv).restrict CustodialLinked).Reachable
      (Calls.alone 0 (bareLinked (some bareLink.walletAddress)) bareRequest rest) := by
    refine bareLink_reachable plainEnv _ _ trivial fun rest => ?_
    -- the address is the key, so the link is no unproven one
    rintro k userId address next hk - ⟨dto, hop, -, rfl, hkey⟩
    obtain rfl : _ = k := Option.some.inj (Calls.alone_threads.symm.trans hk)
    obtain rfl : bareLink = dto := WalletOp.link.inj hop
    exact absurd rfl hkey
  obtain ⟨rest, h⟩ := hreach
  exact ⟨⟨rest, h⟩, (insertions_proven plainEnv h).1⟩

/-- Without a key, the same link is inserted all the same, and nothing proves it. -/
theorem bare_link_inserted_unproven :
    ¬ ∀ c, (walletSystem plainEnv).Reachable c → ∀ i ∈ c.shared.insertions, i.Proven plainEnv := by
  intro hproven
  obtain ⟨rest, h⟩ := bareLink_reachable plainEnv none (fun _ _ => True) trivial
    fun _ => trivial
  have hbare := hproven _ h.of_restrict ⟨bareWallet, bareRequest, none⟩ List.mem_cons_self
  rcases hbare with hkey | ⟨dto, m, s, payload, hop, hm, -⟩
  · cases hkey
  · obtain rfl : bareLink = dto := WalletOp.link.inj hop
    cases hm

end ThalosBackend.Wallets
