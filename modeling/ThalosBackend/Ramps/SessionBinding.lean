import ThalosBackend.Agreements.AccessRule
import ThalosBackend.Library.Conduct
import ThalosBackend.Library.Table
import ThalosBackend.Ramps.RampsService

/-!
# What a verified deposit is bound to

Users create sessions and verify deposits for agreements; their calls interleave, any query may fail, and
the tables of agreements and wallets change around them. Lendara is outside: which ids it gives, and which
transactions it reports, is open.

No request records who has created a session for which agreement. What binds a deposit is the wallet: it
is derived from the caller and the agreement, once when the session is created and again when the deposit
is verified. The history of a request says from which answers (`Derived`).
-/

set_option autoImplicit false

namespace ThalosBackend.Ramps

open Agreements (AgreementDb AgreementProgram ownWallets)
open Calls (Conducts EndsAlong Every Move Only Recalling Ruled Serving Task historyOf traced)
open InternalTrustless (EscrowEnv)
open Js (nonEmpty)
open Threads (Config Label)

/-! ## Lendara -/

/-- A session as Lendara has it, and the request that has opened it. -/
structure OpenedSession where
  id : String
  account : String
  userId : String
  agreementId : String
  deriving DecidableEq

/-- What Lendara does: the ids it may give to a new session, and the transactions it may report for one. -/
structure Lendara where
  gives : List OpenedSession → String → Prop
  reports : List OpenedSession → String → LendaraTransaction → Prop

/-- Ids identify sessions, and the deposit of a session goes to the account it was opened for. -/
structure Lendara.Honest (lendara : Lendara) : Prop where
  fresh : ∀ sessions id, lendara.gives sessions id → ∀ s ∈ sessions, s.id ≠ id
  paid : ∀ sessions id tx, lendara.reports sessions id tx → ∀ account ∈ tx.paidTo,
    ∃ s ∈ sessions, s.id = id ∧ s.account = account

/-- The tables, as they are and as queries have found them, and the sessions that Lendara has. -/
structure RampsDb where
  agreement : AgreementDb
  past : List AgreementDb
  sessions : List OpenedSession

/-! ## Requests -/

/-- What is asked of the service. -/
inductive RampsRequest where
  | createSession (userId : String) (params : CreateSessionParams)
  | verify (userId : String) (params : VerifyParams)
  deriving DecidableEq

namespace RampsRequest

def userId : RampsRequest → String
  | .createSession userId _ => userId
  | .verify userId _ => userId

def agreementId : RampsRequest → String
  | .createSession _ params => params.agreementId
  | .verify _ params => params.agreementId

end RampsRequest

/-- What a request is answered with. -/
inductive RampsAnswer where
  | created (session : CreatedSession)
  | verified (result : VerifyResult)
  deriving DecidableEq

/-- The operation behind a request. -/
def RampsRequest.program (toUpperCase : String → String) (env : EscrowEnv) :
    RampsRequest → RampsProgram RampsAnswer
  | .createSession userId params => do return .created (← Ramps.createSession userId params)
  | .verify userId params => do return .verified (← Ramps.verify toUpperCase env userId params)

/-- What a call does. Lendara may open a session although the request fails. -/
def Executes (lendara : Lendara) (req : RampsRequest) : (c : RampsCall) → RampsDb → c.reply → RampsDb → Prop
  | .agreement c, db, x, db' => ∃ agreement, Agreements.Executes c db.agreement x agreement ∧
      db' = { db with agreement := agreement, past := db.agreement :: db.past }
  | .createSession params, db, x, db' =>
      ((∀ session, x = .ok (some session) → nonEmpty session.id = none) ∧ db' = db) ∨
      ∃ id, lendara.gives db.sessions id ∧ (∀ session, x = .ok (some session) → session.id = some id) ∧
        db' = { db with
          sessions := db.sessions ++ [⟨id, params.account, req.userId, req.agreementId⟩] }
  | .getTransaction sessionId, db, x, db' =>
      (∀ tx, x = .ok (some tx) → lendara.reports db.sessions sessionId tx) ∧ db' = db

/-- What a request has asked and been answered. -/
abbrev RampsHistory := Calls.Answered RampsCall RampsCall.reply

/-- The requests, each with its history, and changes of the tables around them. There is no session at
the beginning. -/
def rampsServing (toUpperCase : String → String) (env : EscrowEnv) (lendara : Lendara) :
    Serving RampsRequest (HttpException × RampsHistory) (RampsCall × RampsHistory)
      (fun c => c.1.reply) (RampsAnswer × RampsHistory) RampsDb Unit AgreementDb where
  init db := db.sessions = [] ∧ db.past = []
  program req := traced (req.program toUpperCase env) []
  exec _ req c db x db' := Executes lendara req c.1 db x db'
  env agreement db db' := db' = { db with agreement := agreement }

abbrev RampsTask := Task RampsRequest (HttpException × RampsHistory) (RampsCall × RampsHistory)
  (fun c => c.1.reply) (RampsAnswer × RampsHistory)

abbrev RampsConfig := Config RampsDb ℕ RampsTask

abbrev RampsLabel := Label ℕ RampsTask Unit AgreementDb

/-- The step system of the requests. -/
def rampsSystem (toUpperCase : String → String) (env : EscrowEnv) (lendara : Lendara) :
    StepSystem RampsConfig RampsLabel :=
  (rampsServing toUpperCase env lendara).threads.system ℕ

/-! ## Destinations -/

/-- The answers of the history are those that `destinationWalletFor` has derived the wallet from. -/
def Derived (userId agreementId : String) (history : RampsHistory) (wallet : String) : Prop :=
  ∃ answers, answers <:+ history ∧
    EndsAlong (destinationWalletFor userId agreementId) answers.reverse wallet

/-- The wallet is one of the user's, as a query has found them. -/
def Owned (past : List AgreementDb) (userId wallet : String) : Prop :=
  ∃ tables ∈ past, wallet ∈ ownWallets tables userId

/-- No wallet is of two users. -/
def Exclusive (toUpperCase : String → String) (past : List AgreementDb) : Prop :=
  ∀ userId userId' wallet wallet', Owned past userId wallet → Owned past userId' wallet' →
    toUpperCase wallet = toUpperCase wallet' → userId = userId'

/-- Queries are answered from the tables that they have found. -/
def FromPast (past : List AgreementDb) : (c : RampsCall) → c.reply → Prop
  | .agreement c, x => ∃ tables ∈ past, ∃ tables', Agreements.Executes c tables x tables'
  | _, _ => True

section Destinations

variable {past : List AgreementDb} {userId agreementId wallet wallet' : String}
  {history history' : RampsHistory}

/-- One history gives one wallet. -/
theorem Derived.unique (h : Derived userId agreementId history wallet)
    (h' : Derived userId agreementId history wallet') : wallet = wallet' := by
  obtain ⟨answers, hsuffix, hends⟩ := h
  obtain ⟨answers', hsuffix', hends'⟩ := h'
  exact hends.unique hends' (List.reverse_prefix.mpr hsuffix) (List.reverse_prefix.mpr hsuffix')

theorem Derived.extend (h : Derived userId agreementId history wallet)
    (hsuffix : history <:+ history') : Derived userId agreementId history' wallet := by
  obtain ⟨answers, hanswers, hends⟩ := h
  exact ⟨answers, hanswers.trans hsuffix, hends⟩

/-- The wallets that are found are of the user, each when it was read. -/
theorem resolveUserWallets_every (userId : String) :
    Every (FromPast past) (fun _ => True)
      (fun wallets => ∀ w ∈ wallets, Owned past userId w)
      (ofAgreements (Agreements.resolveUserWallets userId)) := by
  refine ⟨trivial, fun linked hlinked => ⟨trivial, fun legacy hlegacy w hw => ?_⟩⟩
  rcases List.mem_append.mp (List.mem_eraseDups.mp hw) with hw | hw
  · obtain ⟨db, hdb, db', hexec⟩ := hlinked
    refine ⟨db, hdb, Agreements.mem_ownWallets.mpr (.inl ?_)⟩
    rcases hexec with ⟨wallet, ⟨⟨rows, rfl, hperm, -⟩, rfl⟩, rfl⟩ | ⟨-, ⟨e, rfl⟩, rfl⟩
    · exact (Agreements.listWallets_mem hperm).mp hw
    · cases hw
  · obtain ⟨db, hdb, db', hexec⟩ := hlegacy
    refine ⟨db, hdb, Agreements.mem_ownWallets.mpr (.inr ?_)⟩
    have hkey := Option.mem_toList.mp hw
    rcases hexec with ⟨wallet, ⟨rfl, rfl⟩, rfl⟩ | ⟨-, ⟨e, rfl⟩, rfl⟩
    · exact hkey
    · cases hkey

theorem mem_of_fundingWallet {wallets : List String} {primary : String}
    {participants : List Agreements.Participant} (hprimary : primary ∈ wallets)
    (h : fundingWallet wallets primary participants = .ok wallet) : wallet ∈ wallets := by
  unfold fundingWallet at h
  split at h
  · split at h
    · rename_i hmem
      cases h
      exact hmem
    · cases h
  · cases h
    exact hprimary

/-- The destination is one of the caller's wallets. -/
theorem destinationWalletFor_every (userId agreementId : String) :
    Every (FromPast past) (fun _ => True) (Owned past userId)
      (destinationWalletFor userId agreementId) := by
  refine Calls.every_ask trivial fun x _ => ?_
  cases Wallets.Reply.data x with
  | none => trivial
  | some agreement =>
      refine Only.every_bind (Calls.only_of_forall (fun _ => trivial) _) fun allowed => ?_
      split
      · refine Calls.every_bind.mpr (Every.mono (resolveUserWallets_every userId)
          (fun _ _ h => h) (fun _ h => h) fun wallets hwallets => ?_)
        cases wallets with
        | nil => trivial
        | cons primary others =>
            refine Calls.every_ask trivial fun participants _ => ?_
            refine Calls.every_ofExcept.mpr fun w hw => ?_
            exact hwallets w (mem_of_fundingWallet List.mem_cons_self hw)
      · trivial

theorem Derived.owned (h : Derived userId agreementId history wallet)
    (hhistory : ∀ e ∈ history, FromPast past e.1 e.2) : Owned past userId wallet := by
  obtain ⟨answers, hsuffix, hends⟩ := h
  refine hends.of_every (fun e he => ?_) (destinationWalletFor_every userId agreementId)
  exact hhistory e (hsuffix.subset (List.mem_reverse.mp he))

end Destinations

/-! ## How a request conducts itself -/

/-- What a transaction has been checked for when its deposit is reported as verified. -/
structure Confirms (toUpperCase : String → String) (tx : LendaraTransaction) (wallet : String)
    (result : VerifyResult) : Prop where
  finished : (tx.status.getD "").toLower ∈ finishedStatuses
  paid : ∃ account, tx.paidTo = some account ∧ toUpperCase account = toUpperCase wallet
  named : ∃ id, tx.stellarTransactionId = some id ∧ result.stellarTransactionId = some id

/-- A session is only asked for by a request to create it, with the wallet that it has derived. -/
def Permitted (req : RampsRequest) : RampsCall → RampsHistory → Prop
  | .createSession asked, history => ∃ userId params, req = .createSession userId params ∧
      Derived userId params.agreementId history asked.account
  | _, _ => True

/-- A deposit is reported as verified only for the wallet that the request has derived, and by the
transaction that it was told last. -/
def Promised (toUpperCase : String → String) :
    RampsRequest → Except HttpException RampsAnswer → RampsHistory → Prop
  | .createSession _ _, _, _ => True
  | .verify userId params, out, history => ∀ result, out = .ok (.verified result) →
      result.verified = true → ∃ wallet tx told,
        history = ⟨.getTransaction params.sessionId, .ok (some tx)⟩ :: told ∧
        Derived userId params.agreementId told wallet ∧ Confirms toUpperCase tx wallet result

section Programs

variable {toUpperCase : String → String} {env : EscrowEnv}

/-- A query of the agreements. -/
def IsQuery : RampsCall → Prop
  | .agreement _ => True
  | _ => False

theorem destinationWalletFor_only (userId agreementId : String) :
    Only IsQuery (destinationWalletFor userId agreementId) := by
  have hquery : ∀ {α : Type} (p : Agreements.AgreementProgram α), Only IsQuery (ofAgreements p) :=
    fun p => Calls.only_embed (fun _ => trivial) p
  refine Calls.only_ask trivial fun x => ?_
  cases Wallets.Reply.data x with
  | none => trivial
  | some agreement =>
      dsimp only
      refine Only.bind (hquery _) fun allowed => ?_
      split
      · refine Only.bind (hquery _) fun wallets => ?_
        cases wallets with
        | nil => trivial
        | cons primary others => exact Calls.only_ask trivial fun _ => Calls.only_ofExcept _
      · trivial

/-- The wallet is derived, and what comes after knows from which answers. -/
theorem conducts_destinationWalletFor {req : RampsRequest} {α : Type} {f : String → RampsProgram α}
    {post : Except HttpException α → RampsHistory → Prop} (userId agreementId : String)
    (hf : ∀ wallet history, Derived userId agreementId history wallet →
      Conducts (Permitted req) post (f wallet) history)
    (hfail : ∀ e history, post (.error e) history) :
    Conducts (Permitted req) post (destinationWalletFor userId agreementId >>= f) [] := by
  have hpermitted : ∀ c history, IsQuery c → Permitted req c history := by
    intro c history hquery
    cases c with
    | agreement c => trivial
    | createSession params => exact hquery.elim
    | getTransaction sessionId => trivial
  apply ((destinationWalletFor_only userId agreementId).conducts_endsAlong hpermitted).bind
  · intro wallet history hgiven
    obtain ⟨answers, rfl, hends⟩ := hgiven wallet rfl
    exact hf wallet _ ⟨answers, by rw [List.append_nil], hends⟩
  · intro e history _
    exact hfail e history

/-- Every request keeps to its rules. -/
theorem conducts_program (req : RampsRequest) :
    Conducts (Permitted req) (Promised toUpperCase req) (req.program toUpperCase env) [] := by
  cases req with
  | createSession userId params =>
      rw [RampsRequest.program, Ramps.createSession, Calls.bind_assoc]
      apply conducts_destinationWalletFor userId params.agreementId
      · intro account history hderived
        apply Calls.conducts_ask ⟨userId, params, rfl, hderived⟩
        intro x
        cases x with
        | error e => exact Calls.conducts_fail.mpr trivial
        | ok session =>
            apply Calls.conducts_ofExcept
            · intro created _
              exact Calls.conducts_done.mpr trivial
            · exact fun _ _ => trivial
      · exact fun _ _ => trivial
  | verify userId params =>
      rw [RampsRequest.program, Ramps.verify, Calls.bind_assoc]
      apply conducts_destinationWalletFor userId params.agreementId
      · intro wallet history hderived
        apply Calls.conducts_ask trivial
        intro x
        cases x with
        | error e =>
            apply Calls.conducts_fail.mpr
            rintro result ⟨⟩
        | ok body =>
            cases body with
            | none =>
                apply Calls.conducts_fail.mpr
                rintro result ⟨⟩
            | some tx =>
                apply Calls.conducts_done.mpr
                intro result hresult hverified
                cases hresult
                obtain ⟨hstatus, hpaid, hid⟩ := verdict_verified hverified
                exact ⟨wallet, tx, history, rfl, hderived, ⟨hstatus, hpaid, hid⟩⟩
      · rintro e history result ⟨⟩

end Programs

/-! ## What every run keeps -/

/-- The tables that were found, and the sessions, are only added to. -/
structure Grows (db db' : RampsDb) : Prop where
  past : db.past <:+ db'.past
  sessions : db.sessions <+: db'.sessions

/-- What a request has been told, of every state since. -/
def Tells (lendara : Lendara) (_ : RampsRequest) : (c : RampsCall) → c.reply → RampsDb → Prop
  | .agreement c, x, db => FromPast db.past (.agreement c) x
  | .createSession _, _, _ => True
  | .getTransaction sessionId, x, db => ∀ tx, x = .ok (some tx) →
      ∃ sessions, sessions <+: db.sessions ∧ lendara.reports sessions sessionId tx

section Runs

variable {toUpperCase : String → String} {env : EscrowEnv} {lendara : Lendara} {req : RampsRequest}
  {call : RampsCall} {x : call.reply} {db db' : RampsDb} {c c' : RampsConfig} {l : RampsLabel}

theorem Executes.grows (h : Executes lendara req call db x db') : Grows db db' := by
  cases call with
  | agreement call =>
      obtain ⟨agreement, -, rfl⟩ := h
      exact ⟨List.suffix_cons _ _, List.prefix_refl _⟩
  | createSession params =>
      rcases h with ⟨-, rfl⟩ | ⟨id, -, -, rfl⟩
      · exact ⟨List.suffix_refl _, List.prefix_refl _⟩
      · exact ⟨List.suffix_refl _, List.prefix_append _ _⟩
  | getTransaction sessionId =>
      obtain ⟨-, rfl⟩ := h
      exact ⟨List.suffix_refl _, List.prefix_refl _⟩

theorem Executes.tells (h : Executes lendara req call db x db') : Tells lendara req call x db' := by
  cases call with
  | agreement call =>
      obtain ⟨agreement, hexec, rfl⟩ := h
      exact ⟨_, List.mem_cons_self, agreement, hexec⟩
  | createSession params => trivial
  | getTransaction sessionId =>
      obtain ⟨hreports, rfl⟩ := h
      exact fun tx htx => ⟨_, List.prefix_refl _, hreports tx htx⟩

/-- What was said stays right. -/
theorem Grows.tells (h : Grows db db') (htells : Tells lendara req call x db) :
    Tells lendara req call x db' := by
  cases call with
  | agreement call =>
      obtain ⟨tables, htables, hexec⟩ := htells
      exact ⟨tables, h.past.subset htables, hexec⟩
  | createSession params => trivial
  | getTransaction sessionId =>
      intro tx htx
      obtain ⟨sessions, hearlier, hreports⟩ := htells tx htx
      exact ⟨sessions, hearlier.trans h.sessions, hreports⟩

/-- A new session is for the account of the call, under a new id if Lendara is honest. -/
theorem Executes.sessions (h : Executes lendara req call db x db') :
    db'.sessions = db.sessions ∨ ∃ params id, call = .createSession params ∧
      lendara.gives db.sessions id ∧
        db'.sessions = db.sessions ++ [⟨id, params.account, req.userId, req.agreementId⟩] := by
  cases call with
  | agreement call =>
      obtain ⟨agreement, -, rfl⟩ := h
      exact .inl rfl
  | createSession params =>
      rcases h with ⟨-, rfl⟩ | ⟨id, hgives, -, rfl⟩
      · exact .inl rfl
      · exact .inr ⟨params, id, rfl, hgives, rfl⟩
  | getTransaction sessionId =>
      obtain ⟨-, rfl⟩ := h
      exact .inl rfl

/-- A request of the run has derived the account of the session for its own user and agreement. -/
def OpenedFor (c : RampsConfig) (s : OpenedSession) : Prop :=
  ∃ t k params, c.threads t = some k ∧ k.request = .createSession s.userId params ∧
    params.agreementId = s.agreementId ∧
      Derived s.userId s.agreementId (historyOf k.rest) s.account

/-- What every run keeps. -/
structure BindingInv (toUpperCase : String → String) (lendara : Lendara) (c : RampsConfig) : Prop where
  recalling : Recalling (Tells lendara) c
  ruled : Ruled Permitted (Promised toUpperCase) c
  opened : ∀ s ∈ c.shared.sessions, OpenedFor c s
  unique : lendara.Honest → Table.Unique OpenedSession.id c.shared.sessions

/-- A step only adds to the histories of requests. -/
theorem OpenedFor.grows {s : OpenedSession} (h : OpenedFor c s)
    (hthreads : ∀ t k, c.threads t = some k → ∃ k', c'.threads t = some k' ∧
      k'.request = k.request ∧ historyOf k.rest <:+ historyOf k'.rest) : OpenedFor c' s := by
  obtain ⟨t, k, params, hk, hrequest, hagreement, hderived⟩ := h
  obtain ⟨k', hk', hsame, hsuffix⟩ := hthreads t k hk
  exact ⟨t, k', params, hk', hsame.trans hrequest, hagreement, hderived.extend hsuffix⟩

/-- **Step lemma.** A step keeps what is known of sessions and of their requests. -/
theorem BindingInv.step (h : BindingInv toUpperCase lendara c)
    (hstep : (rampsSystem toUpperCase env lendara).step c l c') :
    BindingInv toUpperCase lendara c' := by
  have hrecalling : Recalling (Tells lendara) c' := by
    refine h.recalling.step (fun req => ⟨req.program toUpperCase env, rfl⟩) ?_ ?_ hstep
    · intro a req call x s hexec
      exact Executes.tells hexec
    · intro t k hk hheld e he
      refine Grows.tells ?_ (hheld e he)
      cases Calls.step_cases hstep with
      | start => exact ⟨List.suffix_refl _, List.prefix_refl _⟩
      | act t a req call cont x s hk' hexec => exact Executes.grows hexec
      | env agreement s henv =>
          obtain rfl := henv
          exact ⟨List.suffix_refl _, List.prefix_refl _⟩
  have hruled : Ruled Permitted (Promised toUpperCase) c' :=
    h.ruled.step (fun req => ⟨req.program toUpperCase env, rfl, conducts_program req⟩) hstep
  have hkept : ∀ s, OpenedFor c s → OpenedFor c' s :=
    fun s hs => hs.grows fun t k hk => h.recalling.grows hstep hk
  -- only the answer to `createSession` adds a session
  cases Calls.step_cases hstep with
  | start t req hfree => exact ⟨hrecalling, hruled, fun s hs => hkept s (h.opened s hs), h.unique⟩
  | act t a req call cont x s hk hexec =>
      obtain ⟨call, history⟩ := call
      rcases Executes.sessions hexec with hsame | ⟨params, id, rfl, hgives, hnew⟩
      · refine ⟨hrecalling, hruled, fun s' hs' => ?_, fun hl => hsame ▸ h.unique hl⟩
        exact hkept s' (h.opened s' (hsame ▸ hs'))
      · refine ⟨hrecalling, hruled, fun s' hs' => ?_, fun hl => ?_⟩
        · rw [hnew] at hs'
          rcases List.mem_append.mp hs' with hold | hnew
          · exact hkept s' (h.opened s' hold)
          · -- the session is of the request that makes the step
            obtain rfl := List.mem_singleton.mp hnew
            obtain ⟨⟨userId, params', rfl, hderived⟩, -⟩ := h.ruled.next hk
            exact hkept _ ⟨t, _, params', hk, rfl, rfl, hderived⟩
        · rw [hnew]
          exact (h.unique hl).concat (hl.fresh _ _ hgives)
  | env agreement s henv =>
      obtain rfl := henv
      exact ⟨hrecalling, hruled, fun s hs => hkept s (h.opened s hs), h.unique⟩

/-- **Run lemma.** What is known of sessions and of their requests holds of every configuration. -/
theorem bindingInv_of_reachable (h : (rampsSystem toUpperCase env lendara).Reachable c) :
    BindingInv toUpperCase lendara c := by
  refine StepSystem.invariant_of_steps (M := rampsSystem toUpperCase env lendara)
    (I := BindingInv toUpperCase lendara) ?_ ?_ h
  · rintro c ⟨⟨hsessions, -⟩, hnone⟩
    refine ⟨Calls.recalling_of_none hnone, Calls.ruled_of_none hnone, ?_, ?_⟩
    · rw [hsessions]
      exact List.forall_mem_nil _
    · intro _
      rw [hsessions]
      exact List.Pairwise.nil
  · intro c l c' _ hI hstep
    exact hI.step hstep

/-! ## What binds a verified deposit -/

/-- The user's request to verify the deposit has ended with this history, and the deposit is reported as
verified. -/
def Verified (c : RampsConfig) (userId : String) (params : VerifyParams) (result : VerifyResult)
    (history : RampsHistory) : Prop :=
  result.verified = true ∧
    ∃ t, c.threads t = some ⟨.verify userId params, .done (.verified result, history)⟩

/-- Lendara has reported a finished transaction to the wallet. -/
def ReadBack (toUpperCase : String → String) (lendara : Lendara) (db : RampsDb) (sessionId : String)
    (wallet : String) (result : VerifyResult) : Prop :=
  ∃ sessions tx, sessions <+: db.sessions ∧ lendara.reports sessions sessionId tx ∧
    Confirms toUpperCase tx wallet result

/-- Where a request has derived a wallet, it is one of its user's. -/
theorem BindingInv.owned (h : BindingInv toUpperCase lendara c) {t : ℕ} {k : RampsTask}
    (hk : c.threads t = some k) {userId agreementId wallet : String}
    (hderived : Derived userId agreementId (historyOf k.rest) wallet) :
    Owned c.shared.past userId wallet := by
  apply hderived.owned
  rintro ⟨call, x⟩ he
  have htells := h.recalling.held t k hk ⟨call, x⟩ he
  cases call with
  | agreement call => exact htells
  | createSession params => trivial
  | getTransaction sessionId => trivial

theorem OpenedFor.owned {s : OpenedSession} (hopened : OpenedFor c s)
    (h : BindingInv toUpperCase lendara c) : Owned c.shared.past s.userId s.account := by
  obtain ⟨t, k, -, hk, -, -, hderived⟩ := hopened
  exact h.owned hk hderived

section Deposits

variable {userId : String} {params : VerifyParams} {result : VerifyResult} {history : RampsHistory}

/-- What is reported as verified has been read back, for the wallet that the request has derived. -/
theorem BindingInv.readBack (h : BindingInv toUpperCase lendara c)
    (hverified : Verified c userId params result history) :
    ∃ wallet, Derived userId params.agreementId history wallet ∧ Owned c.shared.past userId wallet ∧
      ReadBack toUpperCase lendara c.shared params.sessionId wallet result := by
  obtain ⟨htrue, t, hk⟩ := hverified
  obtain ⟨wallet, tx, told, rfl, hderived, hconfirms⟩ := h.ruled.ended hk result rfl htrue
  have hderived := hderived.extend (List.suffix_cons ⟨.getTransaction params.sessionId,
    .ok (some tx)⟩ told)
  have htells := h.recalling.held t _ hk ⟨.getTransaction params.sessionId, .ok (some tx)⟩
    List.mem_cons_self
  obtain ⟨sessions, hearlier, hreports⟩ := htells tx rfl
  exact ⟨wallet, hderived, h.owned hk hderived, sessions, tx, hearlier, hreports, hconfirms⟩

/-- The session of a verified deposit, if Lendara is honest: it was opened for the same wallet. -/
theorem BindingInv.session (h : BindingInv toUpperCase lendara c) (hl : lendara.Honest)
    (hverified : Verified c userId params result history) :
    ∃ s ∈ c.shared.sessions, s.id = params.sessionId ∧
      ∀ wallet, Derived userId params.agreementId history wallet →
        toUpperCase wallet = toUpperCase s.account := by
  obtain ⟨wallet, hderived, -, sessions, tx, hearlier, hreports, hconfirms⟩ := h.readBack hverified
  obtain ⟨account, hpaid, haccount⟩ := hconfirms.paid
  obtain ⟨s, hs, hid, rfl⟩ := hl.paid sessions _ tx hreports account hpaid
  refine ⟨s, hearlier.subset hs, hid, fun wallet' hderived' => ?_⟩
  obtain rfl := hderived.unique hderived'
  exact haccount.symm

end Deposits

/-- **What a verified deposit is bound to.** In every run, a deposit is reported as verified only if
Lendara has reported a finished transaction to the wallet that this request has derived from the answers
to its own queries, one of its user's. If Lendara is honest, the session was opened by a request that
had derived this wallet for its own user and agreement, and for the same user if no wallet is of two;
and one deposit is never verified for two wallets. -/
theorem deposits_bound_to_wallets (h : (rampsSystem toUpperCase env lendara).Reachable c) :
    (∀ userId params result history, Verified c userId params result history →
      ∃ wallet, Derived userId params.agreementId history wallet ∧
        Owned c.shared.past userId wallet ∧
        ReadBack toUpperCase lendara c.shared params.sessionId wallet result) ∧
    (lendara.Honest → ∀ userId params result history, Verified c userId params result history →
      ∃ s ∈ c.shared.sessions, s.id = params.sessionId ∧ OpenedFor c s ∧
        Owned c.shared.past s.userId s.account ∧
        (∀ wallet, Derived userId params.agreementId history wallet →
          toUpperCase wallet = toUpperCase s.account) ∧
        (Exclusive toUpperCase c.shared.past → s.userId = userId)) ∧
    (lendara.Honest → ∀ userId params result history userId' params' result' history',
      Verified c userId params result history → Verified c userId' params' result' history' →
      params.sessionId = params'.sessionId →
      ∀ wallet wallet', Derived userId params.agreementId history wallet →
        Derived userId' params'.agreementId history' wallet' →
        toUpperCase wallet = toUpperCase wallet') := by
  have hinv := bindingInv_of_reachable h
  refine ⟨fun userId params result history => hinv.readBack,
    fun hl userId params result history hv => ?_,
    fun hl userId params result history userId' params' result' history' hv hv' hid wallet wallet'
      hw hw' => ?_⟩
  · obtain ⟨s, hs, hid, hwallet⟩ := hinv.session hl hv
    obtain ⟨wallet, hderived, howned, -⟩ := hinv.readBack hv
    have hopened := hinv.opened s hs
    refine ⟨s, hs, hid, hopened, hopened.owned hinv, hwallet, fun hexclusive => ?_⟩
    exact (hexclusive _ _ _ _ howned (hopened.owned hinv) (hwallet wallet hderived)).symm
  · obtain ⟨s, hs, hid₁, hwallet⟩ := hinv.session hl hv
    obtain ⟨s', hs', hid₂, hwallet'⟩ := hinv.session hl hv'
    -- both deposits are of one session
    obtain rfl : s = s' := (hinv.unique hl).eq hs hs' (hid₁.trans (hid.trans hid₂.symm))
    exact (hwallet wallet hw).trans (hwallet' wallet' hw').symm

end Runs

/-! ## One deposit, two agreements -/

/-- The deposit of a session. -/
def depositOf (s : OpenedSession) : LendaraTransaction :=
  ⟨some "completed", some "hash", some s.account, none, none, none, none⟩

/-- Every session is paid at once. -/
def payingLendara : Lendara where
  gives sessions id := ∀ s ∈ sessions, s.id ≠ id
  reports sessions id tx := ∃ s ∈ sessions, s.id = id ∧ tx = depositOf s

theorem payingLendara_honest : payingLendara.Honest where
  fresh _ _ h := h
  paid := by
    rintro sessions id tx ⟨s, hs, hid, rfl⟩ account haccount
    obtain rfl := Option.mem_some_iff.mp haccount
    exact ⟨s, hs, hid, rfl⟩

/-- The answer to a call. -/
def RampsDb.answer (req : RampsRequest) : (c : RampsCall) → RampsDb → c.reply × RampsDb
  | .agreement c, db => ((db.agreement.answer c).1,
      { db with agreement := (db.agreement.answer c).2, past := db.agreement :: db.past })
  | .createSession params, db =>
      let id := freshText (db.sessions.map OpenedSession.id)
      (.ok (some ⟨some id, some "widget", none⟩),
        { db with sessions := db.sessions ++ [⟨id, params.account, req.userId, req.agreementId⟩] })
  | .getTransaction sessionId, db =>
      (match db.sessions.find? fun s => s.id = sessionId with
        | some s => .ok (some (depositOf s))
        | none => .error (.serviceUnavailable "Lendara rejected the request (404)."), db)

theorem RampsDb.executes_answer (req : RampsRequest) (c : RampsCall) (db : RampsDb) :
    Executes payingLendara req c db (db.answer req c).1 (db.answer req c).2 := by
  cases c with
  | agreement c => exact ⟨_, .inl (db.agreement.answers_answer c), rfl⟩
  | createSession params =>
      refine .inr ⟨_, fun s hs => freshText_ne (List.mem_map_of_mem hs), ?_, rfl⟩
      intro session hsession
      cases hsession
      rfl
  | getTransaction sessionId =>
      refine ⟨fun tx htx => ?_, rfl⟩
      simp only [RampsDb.answer] at htx
      split at htx
      · rename_i s hs
        cases htx
        exact ⟨s, List.mem_of_find?_eq_some hs, by simpa using List.find?_some hs, rfl⟩
      · cases htx

/-- `payer` and `payee` have two agreements, and there is no session. -/
def twoAgreements : RampsDb where
  agreement := Agreements.storeWith Agreements.twoParties
    [(Agreements.sampleDto "10" none Agreements.splitTen).row.row "a" 0,
      (Agreements.sampleDto "20" none Agreements.splitTen).row.row "b" 0] []
  past := []
  sessions := []

/-- The wallets are those of these two users. -/
def theirWallets (db : AgreementDb) : Prop := db.wallet = twoAgreements.agreement.wallet

/-- The requests of a schedule. -/
def playRamps (check : RampsDb → List RampsTask → Move RampsRequest → Bool)
    (moves : List (Move RampsRequest)) : Option (RampsDb × List RampsTask) :=
  (rampsServing String.toUpper {} payingLendara).play (fun req c db => db.answer req c.1) check moves
    (twoAgreements, [])

/-- The move changes no wallet. -/
def quietMove (_ : RampsDb) (tasks : List RampsTask) : Move RampsRequest → Bool
  | .start _ => true
  | .next t => tasks[t]?.all fun k => (Calls.nextCall k.rest).all fun
    | (.agreement c, _) => c.isQuiet
    | _ => true

theorem theirWallets_move {db : RampsDb} {tasks : List RampsTask} {m : Move RampsRequest}
    (hdb : theirWallets db.agreement) (hm : quietMove db tasks m = true) :
    theirWallets ((rampsServing String.toUpper {} payingLendara).move
      (fun req c db => db.answer req c.1) m (db, tasks)).1.agreement := by
  cases m with
  | start req => exact hdb
  | next t =>
      simp only [Calls.Serving.move]
      split
      · rename_i req c cont hk
        obtain ⟨c, history⟩ := c
        cases c with
        | agreement c =>
            have hquiet : c.isQuiet = true := by simpa [quietMove, hk, Calls.nextCall] using hm
            have hsame := Agreements.Executes.sameTables (.inl (db.agreement.answers_answer c)) hquiet
            exact hsame.wallet.trans hdb
        | createSession params => exact hdb
        | getTransaction sessionId => exact hdb
      · exact hdb

/-- The wallets stay those of these two users. -/
def Theirs (c : RampsConfig) (_ : RampsLabel) : Prop := theirWallets c.shared.agreement

theorem reachable_playRamps {moves : List (Move RampsRequest)} {state : RampsDb × List RampsTask}
    (h : playRamps quietMove moves = some state) :
    ((rampsSystem String.toUpper {} payingLendara).restrict Theirs).Reachable
      (Calls.begun state.1 state.2) := by
  refine Calls.reachable_play_keeping (a := ()) (I := fun db : RampsDb => theirWallets db.agreement)
    (fun req c db => db.executes_answer req c.1) (fun db tasks m hdb hm => ?_) ?_ ?_ h
  · exact ⟨hdb, theirWallets_move hdb hm⟩
  · exact rfl
  · exact .init ⟨⟨rfl, rfl⟩, fun _ => rfl⟩

/-- What the requests have been answered with. -/
def answers (tasks : List RampsTask) : List (Option (RampsRequest × RampsAnswer)) :=
  tasks.map fun k => match k.rest with
    | .done a => some (k.request, a.1)
    | _ => none

theorem verified_of_answers {db : RampsDb} {tasks : List RampsTask} {t : ℕ} {userId : String}
    {params : VerifyParams} {result : VerifyResult}
    (h : (answers tasks)[t]? = some (some (.verify userId params, .verified result)))
    (htrue : result.verified = true) :
    ∃ history, Verified (Calls.begun db tasks) userId params result history := by
  rw [answers, List.getElem?_map] at h
  obtain ⟨⟨req, rest⟩, hk, hanswer⟩ := Option.map_eq_some_iff.mp h
  cases rest with
  | done a =>
      obtain ⟨a, history⟩ := a
      cases hanswer
      exact ⟨history, htrue, t, hk⟩
  | fail e => cases hanswer
  | call c next => cases hanswer

/-- `payer` creates a session for one agreement, and verifies its deposit for both. -/
def twoVerifications : List (Move RampsRequest) :=
  .start (.createSession "payer" ⟨"a", "CRC", "25000"⟩) :: List.replicate 7 (.next 0) ++
    .start (.verify "payer" ⟨"a", "i"⟩) :: List.replicate 7 (.next 1) ++
    .start (.verify "payer" ⟨"b", "i"⟩) :: List.replicate 7 (.next 2)

/-- What is reported of the deposit. -/
def arrived : VerifyResult := ⟨true, none, some "hash", some false⟩

/-- Both requests are answered that the deposit has arrived. -/
theorem twoVerifications_verified : ∃ c history history',
    ((rampsSystem String.toUpper {} payingLendara).restrict Theirs).Reachable c ∧
      Verified c "payer" ⟨"a", "i"⟩ arrived history ∧
      Verified c "payer" ⟨"b", "i"⟩ arrived history' := by
  have hrun : ((playRamps quietMove twoVerifications).any fun state =>
      (answers state.2)[1]? = some (some (.verify "payer" ⟨"a", "i"⟩, .verified arrived)) ∧
        (answers state.2)[2]? = some (some (.verify "payer" ⟨"b", "i"⟩, .verified arrived))) = true := by
    decide +kernel
  obtain ⟨state, hstate, hanswers⟩ := (Option.any_eq_true _ _).mp hrun
  obtain ⟨hfirst, hsecond⟩ := of_decide_eq_true hanswers
  obtain ⟨history, hfirst⟩ := verified_of_answers hfirst rfl
  obtain ⟨history', hsecond⟩ := verified_of_answers hsecond rfl
  exact ⟨_, history, history', reachable_playRamps hstate, hfirst, hsecond⟩

/-- Queries have found no other wallets. -/
theorem theirWallets_past {c : RampsConfig}
    (h : ((rampsSystem String.toUpper {} payingLendara).restrict Theirs).Reachable c) :
    ∀ tables ∈ c.shared.past, theirWallets tables := by
  refine StepSystem.invariant_of_steps (M := (rampsSystem String.toUpper {} payingLendara).restrict Theirs)
    (I := fun c => ∀ tables ∈ c.shared.past, theirWallets tables) ?_ ?_ h
  · rintro c ⟨⟨-, hpast⟩, -⟩
    rw [hpast]
    exact List.forall_mem_nil _
  · rintro c l c' - hI ⟨htheirs, hstep⟩
    cases Calls.step_cases hstep with
    | start t req hfree => exact hI
    | act t a req call cont x s hk hexec =>
        obtain ⟨call, history⟩ := call
        cases call with
        | agreement call =>
            -- the tables that a query has read join the past
            obtain ⟨agreement, -, rfl⟩ := hexec
            exact List.forall_mem_cons.mpr ⟨htheirs, hI⟩
        | createSession params =>
            rcases hexec with ⟨-, rfl⟩ | ⟨id, -, -, rfl⟩
            · exact hI
            · exact hI
        | getTransaction sessionId =>
            obtain ⟨-, rfl⟩ := hexec
            exact hI
    | env agreement s henv =>
        obtain rfl := henv
        exact hI

theorem owned_theirWallets {past : List AgreementDb} (hpast : ∀ tables ∈ past, theirWallets tables)
    {userId w : String} (hw : Owned past userId w) :
    userId = "payer" ∧ w = "P" ∨ userId = "payee" ∧ w = "Q" := by
  obtain ⟨db, hdb, hw⟩ := hw
  have hdb := hpast db hdb
  rcases Agreements.mem_ownWallets.mp hw with hlinked | hkey
  · rw [Agreements.linkedWallets, hdb] at hlinked
    cases hlinked
  · rw [hdb] at hkey
    by_cases hpayer : userId = "payer"
    · subst hpayer
      exact .inl ⟨rfl, (Option.some.inj hkey).symm⟩
    · by_cases hpayee : userId = "payee"
      · subst hpayee
        exact .inr ⟨rfl, (Option.some.inj hkey).symm⟩
      · simp [twoAgreements, Agreements.storeWith, Agreements.twoParties, Wallets.WalletDb.publicKey,
          nonEmpty] at hkey

theorem exclusive_theirWallets {past : List AgreementDb}
    (hpast : ∀ tables ∈ past, theirWallets tables) : Exclusive String.toUpper past := by
  intro userId userId' w w' hw hw' heq
  rcases owned_theirWallets hpast hw with ⟨rfl, rfl⟩ | ⟨rfl, rfl⟩
  · rcases owned_theirWallets hpast hw' with ⟨rfl, rfl⟩ | ⟨rfl, rfl⟩
    · rfl
    · exact absurd heq (by decide +kernel)
  · rcases owned_theirWallets hpast hw' with ⟨rfl, rfl⟩ | ⟨rfl, rfl⟩
    · exact absurd heq (by decide +kernel)
    · rfl

/-- The deposit is bound to the wallet of `payer`, who has created its session. -/
theorem deposits_bound_to_wallets_payer : ∃ c history history',
    (rampsSystem String.toUpper {} payingLendara).Reachable c ∧
      (∃ wallet, Derived "payer" "b" history' wallet ∧ Owned c.shared.past "payer" wallet ∧
        ReadBack String.toUpper payingLendara c.shared "i" wallet arrived) ∧
      (∃ s ∈ c.shared.sessions, s.id = "i" ∧ OpenedFor c s ∧ s.userId = "payer" ∧
        ∀ wallet, Derived "payer" "b" history' wallet → wallet.toUpper = s.account.toUpper) ∧
      ∀ wallet wallet', Derived "payer" "a" history wallet → Derived "payer" "b" history' wallet' →
        wallet.toUpper = wallet'.toUpper := by
  obtain ⟨c, history, history', hreach, hfirst, hsecond⟩ := twoVerifications_verified
  obtain ⟨hread, hbound, hpair⟩ := deposits_bound_to_wallets hreach.of_restrict
  obtain ⟨s, hs, hid, hopened, -, hwallet, huser⟩ := hbound payingLendara_honest _ _ _ _ hsecond
  have hexclusive := exclusive_theirWallets (theirWallets_past hreach)
  refine ⟨c, history, history', hreach.of_restrict, hread _ _ _ _ hsecond,
    ⟨s, hs, hid, hopened, huser hexclusive, hwallet⟩, ?_⟩
  exact hpair payingLendara_honest _ _ _ _ _ _ _ _ hfirst hsecond rfl

/-- A verified deposit is of a session of the caller for the agreement, and of no two agreements. -/
def SessionBinding (c : RampsConfig) : Prop :=
  (∀ userId params result history, Verified c userId params result history →
    ∃ s ∈ c.shared.sessions,
      s.id = params.sessionId ∧ s.userId = userId ∧ s.agreementId = params.agreementId) ∧
  ∀ userId params result history userId' params' result' history',
    Verified c userId params result history → Verified c userId' params' result' history' →
    params.sessionId = params'.sessionId → params.agreementId = params'.agreementId

/-- One deposit is verified for two agreements of `payer`. -/
theorem not_session_binding :
    ¬ ∀ toUpperCase env lendara c, lendara.Honest →
      (rampsSystem toUpperCase env lendara).Reachable c → SessionBinding c := by
  intro hall
  obtain ⟨c, history, history', hreach, hfirst, hsecond⟩ := twoVerifications_verified
  obtain ⟨-, honce⟩ := hall _ _ _ c payingLendara_honest hreach.of_restrict
  exact absurd (honce _ _ _ _ _ _ _ _ hfirst hsecond rfl) (by decide)

end ThalosBackend.Ramps
