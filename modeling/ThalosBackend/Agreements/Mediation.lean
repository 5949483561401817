import ThalosBackend.Agreements.StandingReplies
import ThalosBackend.Disputes.InStep
import ThalosBackend.Disputes.OneAccessRule

/-!
# Every write is mediated

The checks of the two services come some queries before the writes they are for, and other requests
run in between. `Permits` judges a query by the store as it is when the query is made: whoever writes
an agreement, its disputes, its participants or its log is admitted to it then, and the wallet the log
names is the user's. The rule is the one of the service that serves the request.

Three rules are weaker, as the services are. Who resolves a dispute was its resolver when the request read
it, and may have been replaced since. A webhook writes the row that it was answered with. And the log of an
assignment names the wallet that was assigned.

`complete_mediation` holds in every interleaving, with any query failing at any time, as long as the
database gives no id twice.
-/

set_option autoImplicit false

namespace ThalosBackend.Agreements

open Js (FloatArithmetic Timestamp Value nonEmpty)
open Calls (Attests Follows Held ask historyOf)
open Disputes (walletOf)

/-! ## The rules -/

/-- Whatever row the id names, one of the wallets admits the user to it. -/
def Admits (db : AgreementDb) (userId agreementId : String) (wallets : List String) : Prop :=
  ∀ a ∈ db.agreements, a.id = agreementId → ∃ w ∈ wallets, admitsThrough db userId a w = true

/-- The dispute is there, and is about the agreement. -/
def IsAbout (db : AgreementDb) (disputeId agreementId : String) : Prop :=
  (∃ d ∈ db.disputes, d.id = disputeId) ∧
    ∀ d ∈ db.disputes, d.id = disputeId → d.agreementId = agreementId

/-- The rule of the agreements service, for who acts as the wallet. -/
def MayWrite (db : AgreementDb) (userId agreementId wallet : String) : Prop :=
  wallet ∈ ownWallets db userId ∧ Admits db userId agreementId (ownWallets db userId)

/-- The request may act on the agreement, and its log names the wallet: by the store, but for the resolver of
a dispute and the row of a webhook, which are those the request was told. -/
def MayAct (db : AgreementDb) (history : QueryHistory) :
    AgreementRequest → (agreementId wallet : String) → Prop
  | .create userId dto, agreementId, wallet => wallet = dto.createdBy ∧
      MayWrite db userId agreementId wallet ∧
      ∃ a, ⟨.insertAgreement dto.row, .ok a⟩ ∈ history ∧ a.id = agreementId
  | .linkContract userId id dto _, agreementId, wallet => agreementId = id ∧
      wallet = dto.actorWallet ∧ MayWrite db userId agreementId wallet
  | .updateStatus userId id dto, agreementId, wallet => agreementId = id ∧
      wallet = dto.actorWallet ∧ MayWrite db userId agreementId wallet
  | .updateMilestone userId id dto, agreementId, wallet => agreementId = id ∧
      wallet = dto.actorWallet ∧ MayWrite db userId agreementId wallet
  | .openDispute userId dto, agreementId, wallet => agreementId = dto.agreementId ∧
      wallet = dto.openedBy ∧ walletOf db userId = some wallet ∧
      Admits db userId agreementId [wallet]
  -- the log names the wallet that was assigned, and not the one of the user
  | .assignResolver userId disputeId dto, agreementId, wallet => wallet = dto.resolverWallet ∧
      IsAbout db disputeId agreementId ∧
      Admits db userId agreementId (walletOf db userId).toList
  | .resolveDispute userId disputeId dto, agreementId, wallet => wallet = dto.resolvedBy ∧
      walletOf db userId = some wallet ∧ IsAbout db disputeId agreementId ∧
      ∃ d, ⟨.findDispute disputeId, .ok (some d)⟩ ∈ history ∧
        nonEmpty d.resolverWallet = some wallet
  | .cancelDispute userId disputeId dto, agreementId, wallet => wallet = dto.cancelledBy ∧
      walletOf db userId = some wallet ∧ IsAbout db disputeId agreementId ∧
      ∀ d ∈ db.disputes, d.id = disputeId → d.openedBy = wallet
  | .webhook payload, agreementId, wallet => wallet = "trustless-work-webhook" ∧
      ∃ contractId a, (payload.field "contractId").toText = some contractId ∧ a.id = agreementId ∧
        (⟨.findByContract contractId, .ok (some a)⟩ ∈ history ∨
          ∃ target updates, ⟨.changeStatusByContract contractId target updates, .ok (some a)⟩ ∈
            history)
  | .sync id _, agreementId, wallet | .reconcile id _ _, agreementId, wallet
  | .syncStatusTransition id _ _, agreementId, wallet => agreementId = id ∧ wallet = "SYNC_ENGINE"

/-- The agreement that an event is about. -/
def AgreementEvent.agreementId : AgreementEvent → String
  | .created agreementId _ _ _ _ _ _ | .funded agreementId _ _ _ _ | .completed agreementId _ _ _ _
  | .evidenceSubmitted agreementId _ _ _ _ _ _ _ _ | .milestoneApproved agreementId _ _ _ _ _ _ _ _
  | .milestoneReleased agreementId _ _ _ _ _ _ _ _ _ | .disputeOpened _ agreementId _ _
  | .disputeResolved _ agreementId _ _ _ _ | .notifyDisputeOpened agreementId _ _ _ => agreementId

/-- The agreement that work behind an answer is about. -/
def BackgroundWork.agreementId : BackgroundWork → String
  | .syncAgreement agreementId | .syncStatusTransition agreementId _ _ => agreementId

/-- The query only reads. -/
def AgreementCall.isRead : AgreementCall → Bool
  | .wallet c => (AgreementCall.wallet c).isQuiet
  | .findAgreement _ | .getAgreement _ | .findByContract _ | .findParticipant _ _
  | .listParticipants _ | .findLiveDispute _ | .findDispute _ => true
  | _ => false

/-- The request may make the query on this store, after these. -/
def Permits (db : AgreementDb) (history : QueryHistory) (req : AgreementRequest) :
    AgreementCall → Prop
  | .insertAgreement new => ∃ userId dto, req = .create userId dto ∧ new = dto.row ∧
      dto.createdBy ∈ ownWallets db userId
  | .deleteAgreement id => (∃ userId dto, req = .create userId dto) ∧
      ∃ wallet, MayAct db history req id wallet
  | .updateAgreement id _ => ∃ wallet, MayAct db history req id wallet
  | .changeStatusByContract contractId _ _ | .updateByContract contractId _ =>
      ∃ payload, req = .webhook payload ∧ (payload.field "contractId").toText = some contractId
  | .insertParticipants rows => ∀ row ∈ rows, ∃ wallet, MayAct db history req row.agreementId wallet
  | .insertActivity row => MayAct db history req row.agreementId row.actorWallet
  | .insertDispute new => MayAct db history req new.agreementId new.openedBy
  | .updateDispute id _ => req.disputeId = some id ∧
      ∃ agreementId wallet, IsAbout db id agreementId ∧ MayAct db history req agreementId wallet
  | .insertResolution new => req.disputeId = some new.disputeId ∧
      ∃ agreementId, IsAbout db new.disputeId agreementId ∧
        MayAct db history req agreementId new.resolvedBy
  | .emit event => ∃ wallet, MayAct db history req event.agreementId wallet
  | .background work => ∃ wallet, MayAct db history req work.agreementId wallet
  | c => c.isRead = true

theorem permits_of_read {db : AgreementDb} {history : QueryHistory} {req : AgreementRequest}
    {c : AgreementCall} (hc : c.isRead = true) : Permits db history req c := by
  cases c with
  | wallet c' => exact hc
  | findAgreement id => exact hc
  | getAgreement id => exact hc
  | findByContract contractId => exact hc
  | findParticipant agreementId wallets => exact hc
  | listParticipants agreementId => exact hc
  | findLiveDispute agreementId => exact hc
  | findDispute id => exact hc
  | _ => cases hc

theorem keepsWallets_of_permits {db : AgreementDb} {history : QueryHistory}
    {req : AgreementRequest} {c : AgreementCall} (h : Permits db history req c) :
    c.keepsWallets = true := by
  cases c with
  | wallet c' => exact h
  | _ => rfl

/-- A right is not lost by another query. -/
theorem MayAct.extend {db : AgreementDb} {history history' : QueryHistory} {req : AgreementRequest}
    {agreementId wallet : String} (h : MayAct db history req agreementId wallet)
    (hsuffix : history <:+ history') : MayAct db history' req agreementId wallet := by
  cases req with
  | create userId dto =>
      obtain ⟨hwallet, hwrite, a, ha, hid⟩ := h
      exact ⟨hwallet, hwrite, a, hsuffix.subset ha, hid⟩
  | resolveDispute userId disputeId dto =>
      obtain ⟨hwallet, hkey, habout, d, hd, hresolver⟩ := h
      exact ⟨hwallet, hkey, habout, d, hsuffix.subset hd, hresolver⟩
  | webhook payload =>
      obtain ⟨hwallet, contractId, a, hcontract, hid, hfound⟩ := h
      refine ⟨hwallet, contractId, a, hcontract, hid, ?_⟩
      rcases hfound with hfound | ⟨target, updates, hfound⟩
      · exact .inl (hsuffix.subset hfound)
      · exact .inr ⟨target, updates, hsuffix.subset hfound⟩
  | _ => exact h

/-! ## The discipline of the programs -/

/-- A reply that some store has given. -/
def Sound (c : AgreementCall) (x : c.reply) : Prop := ∃ db, Tells c x db

/-- Every query of the program is permitted on every store that its replies are right about. -/
abbrev Mediated {α : Type} (req : AgreementRequest) (post : α → QueryHistory → Prop)
    (p : AgreementProgram α) (history : QueryHistory) : Prop :=
  Follows Sound (fun c history => Attests Tells history fun db => Permits db history req c) post p
    history

/-- The replies entitle the request to act on the agreement as the wallet. -/
def Entitled (req : AgreementRequest) (agreementId wallet : String) (history : QueryHistory) :
    Prop :=
  Attests Tells history fun db => MayAct db history req agreementId wallet

section Programs

variable {req : AgreementRequest} {history history' : QueryHistory} {agreementId wallet : String}

theorem Entitled.extend (h : Entitled req agreementId wallet history)
    (hsuffix : history <:+ history') : Entitled req agreementId wallet history' :=
  fun db hheld => (h db (hheld.of_suffix hsuffix)).extend hsuffix

theorem mediated_read {α : Type} {post : α → QueryHistory → Prop} {c : AgreementCall}
    {f : c.reply → AgreementProgram α} (hc : c.isRead = true)
    (hf : ∀ x, Sound c x → Mediated req post (f x) (⟨c, x⟩ :: history)) :
    Mediated req post (ask c >>= f) history :=
  Calls.follows_ask (fun _ _ => permits_of_read hc) hf

/-- A query of a request that is entitled, which it still is afterwards. -/
theorem Entitled.ask {α : Type} {post : α → QueryHistory → Prop} {c : AgreementCall}
    {f : c.reply → AgreementProgram α} (h : Entitled req agreementId wallet history)
    (hc : Attests Tells history fun db => Permits db history req c)
    (hf : ∀ x, Sound c x → Entitled req agreementId wallet (⟨c, x⟩ :: history) →
      Mediated req post (f x) (⟨c, x⟩ :: history)) :
    Mediated req post (Calls.ask c >>= f) history :=
  Calls.follows_ask hc fun x hx => hf x hx (h.extend (List.suffix_cons _ _))

/-- A query that only reads. -/
theorem Entitled.read {α : Type} {post : α → QueryHistory → Prop} {c : AgreementCall}
    {f : c.reply → AgreementProgram α} (h : Entitled req agreementId wallet history)
    (hc : c.isRead = true)
    (hf : ∀ x, Sound c x → Entitled req agreementId wallet (⟨c, x⟩ :: history) →
      Mediated req post (f x) (⟨c, x⟩ :: history)) :
    Mediated req post (Calls.ask c >>= f) history :=
  h.ask (fun _ _ => permits_of_read hc) hf

/-- An update of the agreement. -/
theorem Entitled.update {α : Type} {post : α → QueryHistory → Prop} {updates : AgreementUpdates}
    {f : Wallets.Reply Unit → AgreementProgram α} (h : Entitled req agreementId wallet history)
    (hf : ∀ x, Entitled req agreementId wallet
      (⟨.updateAgreement agreementId updates, x⟩ :: history) →
      Mediated req post (f x) (⟨.updateAgreement agreementId updates, x⟩ :: history)) :
    Mediated req post (Calls.ask (AgreementCall.updateAgreement agreementId updates) >>= f) history :=
  h.ask (fun db hheld => ⟨wallet, h db hheld⟩) fun x _ => hf x

theorem logActivity_mediated {row : Activity}
    (h : Entitled req row.agreementId row.actorWallet history) :
    Mediated req (fun _ _ => True) (logActivity row) history :=
  Calls.follows_ask h fun _ _ => Calls.follows_done trivial

theorem emit_mediated {event : AgreementEvent} (h : Entitled req event.agreementId wallet history) :
    Mediated req (fun _ _ => True) (emit event) history :=
  Calls.follows_ask (fun db hheld => ⟨wallet, h db hheld⟩) fun _ _ => Calls.follows_done trivial

theorem inBackground_mediated {work : BackgroundWork}
    (h : Entitled req work.agreementId wallet history) :
    Mediated req (fun _ _ => True) (inBackground work) history :=
  Calls.follows_ask (fun db hheld => ⟨wallet, h db hheld⟩) fun _ _ => Calls.follows_done trivial

/-! ### The checks of the agreements service -/

/-- The wallets that are found are the user's. -/
theorem resolveUserWallets_mediated (userId : String) :
    Mediated req (fun wallets history => Attests Tells history fun db =>
      ∀ w ∈ wallets, w ∈ ownWallets db userId) (resolveUserWallets userId) history := by
  refine Calls.follows_call.mpr ⟨fun _ _ => permits_of_read rfl, fun linked _ => ?_⟩
  refine Calls.follows_call.mpr ⟨fun _ _ => permits_of_read rfl, fun legacy _ => ?_⟩
  refine Calls.follows_done fun db hheld w hw => ?_
  obtain ⟨hlegacy, hheld⟩ := Calls.held_cons.mp hheld
  obtain ⟨hlinked, -⟩ := Calls.held_cons.mp hheld
  rw [List.mem_eraseDups, List.mem_append] at hw
  rw [mem_ownWallets]
  rcases hw with hw | hw
  · left
    cases linked with
    | error e => cases hw
    | ok rows =>
        obtain ⟨hw, hne⟩ := List.mem_filter.mp hw
        obtain ⟨row, hrow, rfl⟩ := List.mem_map.mp hw
        exact List.mem_filter.mpr ⟨List.mem_map_of_mem (hlinked row hrow), hne⟩
  · right
    cases legacy with
    | error e => cases hw
    | ok user =>
        have huser : user = db.wallet.authUsers userId := hlegacy
        rw [Wallets.WalletDb.publicKey, ← huser]
        exact Option.mem_toList.mp hw

theorem assertActorWallet_mediated (userId actorWallet : String) :
    Mediated req (fun _ history => Attests Tells history fun db =>
      actorWallet ∈ ownWallets db userId) (assertActorWallet userId actorWallet) history := by
  refine (resolveUserWallets_mediated userId).bind_post fun wallets history' hown => ?_
  split
  · exact Calls.follows_fail _
  · split
    · exact Calls.follows_fail _
    · rename_i hmem
      exact Calls.follows_done (hown.mono fun db hall => hall _ (not_not.mp hmem))

/-- Whoever passes is admitted to every agreement with this id and this creator. -/
theorem userCanAccessAgreement_mediated (userId agreementId createdBy : String) :
    Mediated req (fun allowed history => allowed = true → Attests Tells history fun db =>
      ∀ a : Agreement, a.id = agreementId → a.createdBy = createdBy →
        ∃ w ∈ ownWallets db userId, admitsThrough db userId a w = true)
      (userCanAccessAgreement userId agreementId createdBy) history := by
  refine (resolveUserWallets_mediated userId).bind_post fun wallets history' hown => ?_
  split
  · exact Calls.follows_done fun hfalse => by cases hfalse
  · rename_i hempty
    have hne : wallets ≠ [] := by simpa using hempty
    split
    · rename_i hcreator
      refine Calls.follows_done fun _ => hown.mono fun db hall a _ ha => ?_
      obtain ⟨w, hw, hadmits⟩ := (any_admitsThrough_iff hne).mpr (.inl (ha ▸ hcreator))
      exact ⟨w, hall w hw, hadmits⟩
    · refine mediated_read rfl fun parts _ => ?_
      refine Calls.follows_done fun hfound db hheld a hid _ => ?_
      obtain ⟨hparts, hbefore⟩ := Calls.held_cons.mp hheld
      rcases parts with e | ⟨_ | p⟩
      · cases hfound
      · cases hfound
      · obtain ⟨w, hw, hadmits⟩ := (any_admitsThrough_iff hne).mpr
          (.inr ⟨p, hparts.1, hparts.2.1.trans hid.symm, hparts.2.2⟩)
        exact ⟨w, hown db hbefore w hw, hadmits⟩

theorem assertCanAccessAgreement_mediated (userId agreementId : String) :
    Mediated req (fun _ history => Attests Tells history fun db =>
      Admits db userId agreementId (ownWallets db userId))
      (assertCanAccessAgreement userId agreementId) history := by
  refine mediated_read rfl fun found _ => ?_
  rcases found with e | ⟨_ | agreement⟩
  · exact Calls.follows_fail _
  · exact Calls.follows_fail _
  · refine (userCanAccessAgreement_mediated userId agreementId agreement.createdBy).bind_suffix
      fun allowed history' hsuffix hallowed => ?_
    split
    · rename_i hyes
      refine Calls.follows_done fun db hheld a ha hid => ?_
      obtain ⟨hcreator, -⟩ := Calls.held_cons.mp (hheld.of_suffix hsuffix)
      exact hallowed hyes db hheld a hid (hcreator a ha hid)
    · exact Calls.follows_fail _

/-! ### The checks of the disputes service -/

theorem walletForUserId_mediated (userId : String) :
    Mediated req (fun found history => ∀ w, found = some w → Attests Tells history fun db =>
      walletOf db userId = some w) (Disputes.walletForUserId userId) history := by
  refine mediated_read rfl fun reply _ => ?_
  refine Calls.follows_done fun w hw db hheld => ?_
  obtain ⟨huser, -⟩ := Calls.held_cons.mp hheld
  cases reply with
  | error e => cases hw
  | ok user =>
      have hsame : user = db.wallet.authUsers userId := huser
      rw [walletOf, Wallets.WalletDb.publicKey, ← hsame]
      exact hw

theorem disputesActorWallet_mediated (userId actorWallet : String) :
    Mediated req (fun _ history => Attests Tells history fun db =>
      walletOf db userId = some actorWallet) (Disputes.assertActorWallet userId actorWallet)
      history := by
  refine (walletForUserId_mediated userId).bind_post fun found history' hfound => ?_
  split
  · exact Calls.follows_fail _
  · rename_i hsame
    exact Calls.follows_done (hfound _ (not_not.mp hsame))

theorem disputesCanAccess_mediated (userId agreementId : String) :
    Mediated req (fun _ history => Attests Tells history fun db =>
      Admits db userId agreementId (walletOf db userId).toList)
      (Disputes.assertCanAccessAgreement userId agreementId) history := by
  refine (walletForUserId_mediated userId).bind_post fun found history' hfound => ?_
  cases found with
  | none => exact Calls.follows_fail _
  | some key =>
      have hkey := hfound key rfl
      refine mediated_read rfl fun reply _ => ?_
      rcases reply with e | ⟨_ | agreement⟩
      · exact Calls.follows_fail _
      · exact Calls.follows_fail _
      · dsimp only [Wallets.Reply.data]
        split
        · rename_i hcreator
          refine Calls.follows_done fun db hheld a ha hid => ?_
          obtain ⟨hsame, hheld⟩ := Calls.held_cons.mp hheld
          refine ⟨key, by simp [hkey db hheld], ?_⟩
          rw [← hsame a ha hid] at hcreator
          simp only [admitsThrough, decide_eq_true_eq]
          rcases hcreator with hwallet | huser
          · exact .inr (.inl hwallet)
          · exact .inl huser
        · refine mediated_read rfl fun parts _ => ?_
          rcases parts with e | ⟨_ | p⟩
          · exact Calls.follows_fail _
          · exact Calls.follows_fail _
          · refine Calls.follows_done fun db hheld a ha hid => ?_
            obtain ⟨hparts, hheld⟩ := Calls.held_cons.mp hheld
            obtain ⟨-, hheld⟩ := Calls.held_cons.mp hheld
            refine ⟨key, by simp [hkey db hheld], ?_⟩
            have hwallet : p.walletAddress = key := List.mem_singleton.mp hparts.2.2
            simp only [admitsThrough, decide_eq_true_eq]
            exact .inr (.inr ⟨p, hparts.1, hparts.2.1.trans hid.symm, hwallet⟩)

/-! ### The writes -/

theorem emitStatus_mediated (now : Timestamp) (agreement : Agreement) {actor toStatus : String}
    (h : Entitled req agreementId wallet history) :
    Mediated req (fun _ _ => True) (emitStatus now agreement agreementId actor toStatus) history := by
  unfold emitStatus
  split
  · rename_i event hevent
    have habout : event.agreementId = agreementId := by
      unfold statusEvent at hevent
      dsimp only at hevent
      split at hevent
      · cases hevent
        rfl
      · split at hevent
        · cases hevent
          rfl
        · cases hevent
    exact emit_mediated (habout ▸ h)
  · exact Calls.follows_done trivial

theorem emitAll_mediated (events : List AgreementEvent)
    (h : ∀ event ∈ events, Entitled req event.agreementId wallet history) :
    Mediated req (fun _ _ => True) (emitAll events) history := by
  induction events generalizing history with
  | nil => exact Calls.follows_done trivial
  | cons event rest ih =>
      refine (emit_mediated (h event List.mem_cons_self)).bind_suffix fun _ _ hsuffix _ => ?_
      exact ih fun event' he => (h event' (List.mem_cons_of_mem _ he)).extend hsuffix

theorem logMilestonesCreated_mediated (entries : List (Milestone × ℕ))
    (h : Entitled req agreementId wallet history) :
    Mediated req (fun _ _ => True) (logMilestonesCreated agreementId wallet entries) history := by
  induction entries generalizing history with
  | nil => exact Calls.follows_done trivial
  | cons entry rest ih =>
      refine (logActivity_mediated h).bind_suffix fun _ _ hsuffix _ => ?_
      exact ih (h.extend hsuffix)

theorem applyStatusChange_mediated (now : Timestamp) (toStatus : AgreementStatus) (enforce : Bool)
    (details : List (String × Value)) (h : Entitled req agreementId wallet history) :
    Mediated req (fun _ _ => True)
      (applyStatusChange now agreementId wallet toStatus enforce details) history := by
  refine h.read rfl fun found _ h₁ => ?_
  cases found with
  | error e => exact Calls.follows_done trivial
  | ok current =>
      refine Calls.follows_ofExcept fun refused _ => ?_
      cases refused with
      | some reason => exact Calls.follows_done trivial
      | none =>
          refine h₁.update fun updated h₂ => ?_
          cases updated with
          | error e => exact Calls.follows_done trivial
          | ok _ =>
              refine (logActivity_mediated h₂).bind_suffix fun _ _ hsuffix _ => ?_
              refine (emitStatus_mediated now current (h₂.extend hsuffix)).bind fun _ _ => ?_
              exact Calls.follows_done trivial

/-- Every event of `updateMilestone` is about its agreement. -/
theorem agreementId_of_milestoneEvents {agreement : Agreement} {dto : UpdateMilestoneDto}
    {previous : MilestoneStatus} {m : Milestone} {event : AgreementEvent}
    (hid : agreement.id = agreementId)
    (h : event ∈ milestoneEvents agreement agreementId dto previous m) :
    event.agreementId = agreementId := by
  unfold milestoneEvents at h
  simp only [List.mem_append] at h
  rcases h with (h | h) | h
  all_goals
    split at h
    · rw [List.mem_singleton.mp h]
      first | exact hid | rfl
    · cases h

theorem milestoneEvents_mediated {agreement : Agreement} {dto : UpdateMilestoneDto}
    {previous : MilestoneStatus} {m : Milestone} (hid : agreement.id = agreementId)
    (h : Entitled req agreementId wallet history) : Mediated req (fun _ _ => True)
      (emitAll (milestoneEvents agreement agreementId dto previous m)) history := by
  apply emitAll_mediated
  intro event hevent
  rw [agreementId_of_milestoneEvents hid hevent]
  exact h

/-! ### The operations of the agreements service -/

/-- The two checks entitle a user's request to act as its wallet. -/
theorem checked_mediated {α : Type} {f : Unit → AgreementProgram α} {userId actorWallet : String}
    (hentitled : ∀ db history, MayWrite db userId agreementId actorWallet →
      MayAct db history req agreementId actorWallet)
    (hf : ∀ history, Entitled req agreementId actorWallet history →
      Mediated req (fun _ _ => True) (f ()) history) :
    Mediated req (fun _ _ => True)
      (assertCanAccessAgreement userId agreementId >>= fun _ =>
        assertActorWallet userId actorWallet >>= f) history := by
  refine (assertCanAccessAgreement_mediated userId agreementId).bind_suffix
    fun _ history₁ _ hadmits => ?_
  refine (assertActorWallet_mediated userId actorWallet).bind_suffix
    fun _ history₂ hsuffix hown => ?_
  apply hf
  intro db hheld
  exact hentitled db history₂ ⟨hown db hheld, hadmits db (hheld.of_suffix hsuffix)⟩

theorem create_mediated (F : FloatArithmetic) (userId : String) (dto : CreateAgreementDto) :
    Mediated (.create userId dto) (fun _ _ => True) (create F userId dto) history := by
  unfold create
  split
  · exact Calls.follows_done trivial
  · refine (assertActorWallet_mediated userId dto.createdBy).bind_post fun _ history₁ hown => ?_
    refine Calls.follows_ask (fun db hheld => ⟨userId, dto, rfl, rfl, hown db hheld⟩)
      fun inserted _ => ?_
    cases inserted with
    | error e => exact Calls.follows_done trivial
    | ok agreement =>
        -- the creator of every row under the new id is the wallet that was checked
        have hentitled : Entitled (.create userId dto) agreement.id dto.createdBy
            (⟨.insertAgreement dto.row, .ok agreement⟩ :: history₁) := by
          intro db hheld
          obtain ⟨hcreator, hheld⟩ := Calls.held_cons.mp hheld
          have hwallet := hown db hheld
          refine ⟨rfl, ⟨hwallet, fun a ha hid => ⟨dto.createdBy, hwallet, ?_⟩⟩, agreement,
            List.mem_cons_self, rfl⟩
          simp only [admitsThrough, decide_eq_true_eq]
          exact .inr (.inl (hcreator a ha hid))
        refine hentitled.ask (fun db hheld row hrow => ?_) fun added _ h₁ => ?_
        · obtain ⟨p, -, rfl⟩ := List.mem_map.mp hrow
          exact ⟨dto.createdBy, hentitled db hheld⟩
        · cases added with
          | error e =>
              refine Calls.follows_ask (fun db hheld => ⟨⟨userId, dto, rfl⟩, dto.createdBy,
                h₁ db hheld⟩) fun _ _ => ?_
              exact Calls.follows_fail _
          | ok _ =>
              refine (logActivity_mediated h₁).bind_suffix fun _ _ hs₁ _ => ?_
              have h₂ := h₁.extend hs₁
              refine (logMilestonesCreated_mediated _ h₂).bind_suffix fun _ _ hs₂ _ => ?_
              have h₃ := h₂.extend hs₂
              refine (emit_mediated h₃).bind_suffix fun _ _ hs₃ _ => ?_
              split
              · refine (inBackground_mediated (h₃.extend hs₃)).bind fun _ _ => ?_
                exact Calls.follows_done trivial
              · exact Calls.follows_done trivial

theorem linkContract_mediated (now : Timestamp) (userId agreementId : String) (dto : LinkContractDto)
    (fetch : Fetch) : Mediated (.linkContract userId agreementId dto fetch) (fun _ _ => True)
      (linkContract now userId agreementId dto fetch) history := by
  refine checked_mediated (fun _ _ hwrite => ⟨rfl, rfl, hwrite⟩) fun history₁ h₁ => ?_
  dsimp only
  split
  · exact Calls.follows_done trivial
  · refine h₁.update fun updated h₂ => ?_
    cases updated with
    | error e => exact Calls.follows_done trivial
    | ok _ =>
        refine (logActivity_mediated h₂).bind_suffix fun _ _ hsuffix _ => ?_
        refine (inBackground_mediated (h₂.extend hsuffix)).bind fun _ _ => ?_
        exact Calls.follows_done trivial

theorem updateStatus_mediated (now : Timestamp) (userId agreementId : String)
    (dto : UpdateAgreementStatusDto) :
    Mediated (.updateStatus userId agreementId dto) (fun _ _ => True)
      (updateStatus now userId agreementId dto) history := by
  refine checked_mediated (fun _ _ hwrite => ⟨rfl, rfl, hwrite⟩) fun history₁ h₁ => ?_
  refine h₁.read rfl fun found _ h₂ => ?_
  cases found with
  | error e => exact Calls.follows_done trivial
  | ok current =>
      refine Calls.follows_ofExcept fun refused _ => ?_
      cases refused with
      | some reason => exact Calls.follows_fail _
      | none =>
          dsimp only
          split
          · exact Calls.follows_fail _
          · refine h₂.update fun updated h₃ => ?_
            cases updated with
            | error e => exact Calls.follows_done trivial
            | ok _ =>
                refine (logActivity_mediated h₃).bind_suffix fun _ _ hs₁ _ => ?_
                have h₄ := h₃.extend hs₁
                refine (inBackground_mediated h₄).bind_suffix fun _ _ hs₂ _ => ?_
                refine (emitStatus_mediated now current (h₄.extend hs₂)).bind fun _ _ => ?_
                exact Calls.follows_done trivial

theorem updateMilestone_mediated (F : FloatArithmetic) (now : Timestamp)
    (userId agreementId : String) (dto : UpdateMilestoneDto) :
    Mediated (.updateMilestone userId agreementId dto) (fun _ _ => True)
      (updateMilestone F now userId agreementId dto) history := by
  refine checked_mediated (fun _ _ hwrite => ⟨rfl, rfl, hwrite⟩) fun history₁ h₁ => ?_
  refine h₁.read rfl fun found hfound h₂ => ?_
  cases found with
  | error e => exact Calls.follows_done trivial
  | ok agreement =>
      have hid : agreement.id = agreementId := hfound.choose_spec
      dsimp only
      split
      · exact Calls.follows_done trivial
      · refine Calls.follows_ofExcept fun consistency _ => ?_
        cases consistency with
        | error e => exact Calls.follows_fail _
        | ok _ =>
            refine h₂.update fun updated h₃ => ?_
            cases updated with
            | error e => exact Calls.follows_done trivial
            | ok _ =>
                refine (logActivity_mediated h₃).bind_suffix fun _ _ hs₁ _ => ?_
                have h₄ := h₃.extend hs₁
                refine (milestoneEvents_mediated hid h₄).bind_suffix fun _ _ hs₂ _ => ?_
                refine (inBackground_mediated (h₄.extend hs₂)).bind fun _ _ => ?_
                exact Calls.follows_done trivial

/-! ### The operations of the disputes service -/

theorem openDispute_mediated (now : Timestamp) (userId : String) (dto : Disputes.OpenDisputeDto) :
    Mediated (.openDispute userId dto) (fun _ _ => True) (Disputes.openDispute now userId dto)
      history := by
  refine (disputesCanAccess_mediated userId dto.agreementId).bind_suffix
    fun _ history₁ _ hadmits => ?_
  refine (disputesActorWallet_mediated userId dto.openedBy).bind_suffix
    fun _ history₂ hs₂ hkey => ?_
  have h₂ : Entitled (.openDispute userId dto) dto.agreementId dto.openedBy history₂ := by
    intro db hheld
    have hadmitted : Admits db userId dto.agreementId (walletOf db userId).toList :=
      hadmits db (hheld.of_suffix hs₂)
    rw [hkey db hheld] at hadmitted
    exact ⟨rfl, rfl, hkey db hheld, hadmitted⟩
  refine h₂.read rfl fun existing _ h₃ => ?_
  split
  · exact Calls.follows_done trivial
  · refine h₃.ask (fun db hheld => h₃ db hheld) fun inserted _ h₄ => ?_
    cases inserted with
    | error e => exact Calls.follows_done trivial
    | ok dispute =>
        refine (applyStatusChange_mediated now .disputed true _ h₄).bind_suffix
          fun result _ hs₅ _ => ?_
        have h₅ := h₄.extend hs₅
        split
        · exact Calls.follows_fail _
        · refine (logActivity_mediated h₅).bind_suffix fun _ _ hs₆ _ => ?_
          refine (emit_mediated (h₅.extend hs₆)).bind fun _ _ => ?_
          exact Calls.follows_done trivial

/-- The dispute that was found is the one the id names. -/
theorem isAbout_of_found (disputeId : String) (dispute : Dispute) (rest : QueryHistory) :
    Attests Tells (⟨.findDispute disputeId, .ok (some dispute)⟩ :: rest) fun db =>
      IsAbout db disputeId dispute.agreementId ∧
        ∀ d ∈ db.disputes, d.id = disputeId → d.openedBy = dispute.openedBy := by
  apply Calls.attests_last
  rintro db ⟨hthere, hall⟩
  exact ⟨⟨hthere, fun d hd hid => (hall d hd hid).1⟩, fun d hd hid => (hall d hd hid).2⟩

theorem assignResolver_mediated (now : Timestamp) (userId disputeId : String)
    (dto : Disputes.AssignResolverDto) :
    Mediated (.assignResolver userId disputeId dto) (fun _ _ => True)
      (Disputes.assignResolver now userId disputeId dto) history := by
  refine mediated_read rfl fun found _ => ?_
  rcases found with e | ⟨_ | dispute⟩
  · exact Calls.follows_fail _
  · exact Calls.follows_fail _
  · have habout := isAbout_of_found disputeId dispute history
    refine (disputesCanAccess_mediated userId dispute.agreementId).bind_suffix
      fun _ history₁ hs₁ hadmits => ?_
    have h₁ : Entitled (.assignResolver userId disputeId dto) dispute.agreementId
        dto.resolverWallet history₁ :=
      fun db hheld => ⟨rfl, (habout.extend hs₁ db hheld).1, hadmits db hheld⟩
    split
    · exact Calls.follows_fail _
    · refine h₁.ask (fun db hheld => ⟨rfl, dispute.agreementId, dto.resolverWallet,
        (habout.extend hs₁ db hheld).1, h₁ db hheld⟩) fun updated _ h₂ => ?_
      cases updated with
      | error e => exact Calls.follows_done trivial
      | ok _ =>
          refine (logActivity_mediated h₂).bind fun _ _ => ?_
          exact Calls.follows_done trivial

theorem resolveDispute_mediated (F : FloatArithmetic) (now : Timestamp) (userId disputeId : String)
    (dto : Disputes.ResolveDisputeDto) :
    Mediated (.resolveDispute userId disputeId dto) (fun _ _ => True)
      (Disputes.resolveDispute F now userId disputeId dto) history := by
  refine (disputesActorWallet_mediated userId dto.resolvedBy).bind_suffix
    fun _ history₁ _ hkey => ?_
  split
  · exact Calls.follows_fail _
  · refine mediated_read rfl fun found _ => ?_
    rcases found with e | ⟨_ | dispute⟩
    · exact Calls.follows_fail _
    · exact Calls.follows_fail _
    · dsimp only [Wallets.Reply.data]
      split
      · exact Calls.follows_fail _
      · split
        · exact Calls.follows_fail _
        · rename_i hresolver
          -- the resolver that is judged is the one of the row that was found
          have habout := isAbout_of_found disputeId dispute history₁
          have h₁ : Entitled (.resolveDispute userId disputeId dto) dispute.agreementId
              dto.resolvedBy (⟨.findDispute disputeId, .ok (some dispute)⟩ :: history₁) :=
            fun db hheld => ⟨rfl, hkey db (hheld.of_suffix (List.suffix_cons _ _)),
              (habout db hheld).1, dispute, List.mem_cons_self, not_not.mp hresolver⟩
          refine h₁.ask (fun db hheld => ⟨rfl, dispute.agreementId,
            (habout db hheld).1, h₁ db hheld⟩) fun inserted _ h₂ => ?_
          cases inserted with
          | error e => exact Calls.follows_done trivial
          | ok resolution =>
              refine h₂.ask (fun db hheld => ⟨rfl, dispute.agreementId, dto.resolvedBy,
                (habout.extend (List.suffix_cons _ _) db hheld).1, h₂ db hheld⟩)
                fun updated _ h₃ => ?_
              refine (applyStatusChange_mediated now .resolved true _ h₃).bind_suffix
                fun result _ hs₄ _ => ?_
              have h₄ := h₃.extend hs₄
              split
              · exact Calls.follows_done trivial
              · refine (logActivity_mediated h₄).bind_suffix fun _ _ hs₅ _ => ?_
                refine (emit_mediated (h₄.extend hs₅)).bind fun _ _ => ?_
                exact Calls.follows_done trivial

theorem cancelDispute_mediated (now : Timestamp) (userId disputeId : String)
    (dto : Disputes.CancelDisputeDto) :
    Mediated (.cancelDispute userId disputeId dto) (fun _ _ => True)
      (Disputes.cancelDispute now userId disputeId dto) history := by
  refine (disputesActorWallet_mediated userId dto.cancelledBy).bind_suffix
    fun _ history₁ _ hkey => ?_
  refine mediated_read rfl fun found _ => ?_
  rcases found with e | ⟨_ | dispute⟩
  · exact Calls.follows_fail _
  · exact Calls.follows_fail _
  · dsimp only [Wallets.Reply.data]
    split
    · exact Calls.follows_fail _
    · rename_i hopener
      split
      · exact Calls.follows_fail _
      · -- a dispute keeps its opener, so the one found is still the opener when the row is written
        have habout := isAbout_of_found disputeId dispute history₁
        have h₁ : Entitled (.cancelDispute userId disputeId dto) dispute.agreementId
            dto.cancelledBy (⟨.findDispute disputeId, .ok (some dispute)⟩ :: history₁) :=
          fun db hheld => ⟨rfl, hkey db (hheld.of_suffix (List.suffix_cons _ _)),
            (habout db hheld).1,
            fun d hd hid => ((habout db hheld).2 d hd hid).trans (not_not.mp hopener)⟩
        refine h₁.ask (fun db hheld => ⟨rfl, dispute.agreementId, dto.cancelledBy,
          (habout db hheld).1, h₁ db hheld⟩) fun updated _ h₂ => ?_
        cases updated with
        | error e => exact Calls.follows_done trivial
        | ok _ =>
            refine h₂.read rfl fun agreement _ h₃ => ?_
            dsimp only
            split
            · exact Calls.follows_fail _
            · refine (applyStatusChange_mediated now .active false _ h₃).bind_suffix
                fun result _ hs₄ _ => ?_
              split
              · exact Calls.follows_done trivial
              · refine (logActivity_mediated (h₃.extend hs₄)).bind fun _ _ => ?_
                exact Calls.follows_done trivial

/-! ### Syncs -/

/-- A participant that an escrow names is one of the agreement. -/
theorem agreementId_of_namedParticipant {existing rows : List Participant} {escrow : Value}
    {role : String} {row : Participant}
    (h : namedParticipant agreementId existing escrow role = .ok rows) (hrow : row ∈ rows) :
    row.agreementId = agreementId := by
  unfold namedParticipant at h
  dsimp only at h
  split at h
  · cases h
    cases hrow
  · split at h
    · cases h
    · split at h
      · cases h
        cases hrow
      · cases h
        rw [List.mem_singleton.mp hrow]

/-- A request that Trustless Work is asked for names its agreement, and its log names no wallet. -/
def AgreementRequest.Syncs (req : AgreementRequest) (agreementId : String) : Prop :=
  ∀ history, Entitled req agreementId "SYNC_ENGINE" history

section Syncs

variable (hreq : req.Syncs agreementId)

include hreq

theorem logSyncActivity_mediated (now : Timestamp) (action : String)
    (details : List (String × Value)) :
    Mediated req (fun _ _ => True) (logSyncActivity now agreementId action details) history :=
  logActivity_mediated (hreq history)

theorem syncParticipants_mediated (escrow : Value) :
    Mediated req (fun _ _ => True) (syncParticipants agreementId escrow) history := by
  refine mediated_read rfl fun reply _ => ?_
  refine Calls.follows_ofExcept fun sender hsender => ?_
  refine Calls.follows_ofExcept fun receiver hreceiver => ?_
  refine Calls.follows_ofExcept fun approver happrover => ?_
  dsimp only
  split
  · exact Calls.follows_done trivial
  · refine Calls.follows_ask (fun db hheld row hrow => ⟨"SYNC_ENGINE", ?_⟩) fun _ _ =>
      Calls.follows_done trivial
    have hnamed : row.agreementId = agreementId := by
      rcases List.mem_append.mp hrow with hrow | hrow
      · rcases List.mem_append.mp hrow with hrow | hrow
        · exact agreementId_of_namedParticipant hsender hrow
        · exact agreementId_of_namedParticipant hreceiver hrow
      · exact agreementId_of_namedParticipant happrover hrow
    rw [hnamed]
    exact hreq _ db hheld

theorem syncWith_mediated (now : Timestamp) {agreement : Agreement} (hid : agreement.id = agreementId)
    (contractId : String) (escrow : Value) :
    Mediated req (fun _ _ => True) (syncWith now agreement contractId escrow) history := by
  subst hid
  unfold syncWith
  split
  · exact Calls.follows_fail _
  · dsimp only
    split
    · refine (logSyncActivity_mediated hreq now _ _).bind fun _ _ => ?_
      exact Calls.follows_done trivial
    · refine (hreq history).update fun updated _ => ?_
      cases updated with
      | error e => exact Calls.follows_done trivial
      | ok _ =>
          dsimp only
          split
          · refine (syncParticipants_mediated hreq escrow).bind fun _ _ => ?_
            refine (logSyncActivity_mediated hreq now _ _).bind fun _ _ => ?_
            exact Calls.follows_done trivial
          · refine (logSyncActivity_mediated hreq now _ _).bind fun _ _ => ?_
            exact Calls.follows_done trivial
    · refine (logSyncActivity_mediated hreq now _ _).bind fun _ _ => ?_
      exact Calls.follows_done trivial

theorem doSync_mediated (now : Timestamp) (fetch : Fetch) :
    Mediated req (fun _ _ => True) (doSync now agreementId fetch) history := by
  refine mediated_read rfl fun found hfound => ?_
  cases found with
  | error e => exact Calls.follows_done trivial
  | ok agreement =>
      dsimp only
      split
      · exact Calls.follows_done trivial
      · split
        · exact syncWith_mediated hreq now hfound.choose_spec _ _
        · refine (logSyncActivity_mediated hreq now _ _).bind fun _ _ => ?_
          exact Calls.follows_done trivial

theorem correctMilestones_mediated (now : Timestamp) (fetch : Fetch) :
    Mediated req (fun _ _ => True) (correctMilestones now agreementId fetch) history := by
  refine mediated_read rfl fun found _ => ?_
  cases found with
  | error e => exact Calls.follows_done trivial
  | ok agreement =>
      dsimp only
      split
      · exact Calls.follows_done trivial
      · split
        · exact Calls.follows_done trivial
        · split
          · refine Calls.follows_ofExcept fun milestones _ => ?_
            refine (hreq _).update fun updated _ => ?_
            refine (logSyncActivity_mediated hreq now _ _).bind fun _ _ => ?_
            exact Calls.follows_done trivial
          · refine (logSyncActivity_mediated hreq now _ _).bind fun _ _ => ?_
            exact Calls.follows_done trivial

theorem doReconcile_mediated (now : Timestamp) (first second : Fetch) :
    Mediated req (fun _ _ => True) (doReconcile now agreementId first second) history := by
  refine (doSync_mediated hreq now first).bind fun result _ => ?_
  split
  · exact Calls.follows_done trivial
  · split
    · exact Calls.follows_done trivial
    · refine (correctMilestones_mediated hreq now second).bind fun _ _ => ?_
      exact Calls.follows_done trivial

theorem syncStatusTransition_mediated (now : Timestamp) (fromStatus toStatus : String) :
    Mediated req (fun _ _ => True) (syncStatusTransition now agreementId fromStatus toStatus)
      history := by
  refine Calls.follows_ofExcept fun refused _ => ?_
  cases refused with
  | some reason =>
      refine (logSyncActivity_mediated hreq now _ _).bind fun _ _ => ?_
      exact Calls.follows_done trivial
  | none =>
      refine mediated_read rfl fun found _ => ?_
      cases found with
      | error e => exact Calls.follows_done trivial
      | ok agreement =>
          refine (emitStatus_mediated now agreement (hreq _)).bind fun _ _ => ?_
          refine (logSyncActivity_mediated hreq now _ _).bind fun _ _ => ?_
          exact Calls.follows_done trivial

end Syncs

/-! ### Webhooks -/

section Webhooks

variable {payload : Value} {contractId : String}
  (hcontract : (payload.field "contractId").toText = some contractId)

include hcontract

/-- The row that was found under the contract id of the payload. -/
theorem webhook_entitled {agreement : Agreement}
    (hfound : ⟨.findByContract contractId, .ok (some agreement)⟩ ∈ history ∨
      ∃ target updates, ⟨.changeStatusByContract contractId target updates, .ok (some agreement)⟩ ∈
        history) :
    Entitled (.webhook payload) agreement.id "trustless-work-webhook" history :=
  fun _ _ => ⟨rfl, contractId, agreement, hcontract, rfl, hfound⟩

theorem writeStatus_mediated (now : Timestamp) (target : AgreementStatus) :
    Mediated (.webhook payload) (fun _ _ => True) (Webhooks.writeStatus now payload contractId target)
      history := by
  refine Calls.follows_ask (fun _ _ => ⟨payload, rfl, hcontract⟩) fun changed _ => ?_
  rcases changed with e | ⟨_ | row⟩
  · exact Calls.follows_fail _
  · refine mediated_read rfl fun found _ => ?_
    split
    · exact Calls.follows_fail _
    · exact Calls.follows_done trivial
  · have hrow : Entitled (.webhook payload) row.id "trustless-work-webhook"
        (⟨.changeStatusByContract contractId target.text (Webhooks.webhookUpdates now target),
          .ok (some row)⟩ :: history) :=
      webhook_entitled hcontract (.inr ⟨_, _, List.mem_cons_self⟩)
    refine (logActivity_mediated hrow).bind_suffix fun _ _ hsuffix _ => ?_
    cases target with
    | funded => exact emit_mediated (hrow.extend hsuffix)
    | completed => exact emit_mediated (hrow.extend hsuffix)
    | disputed => exact emit_mediated (hrow.extend hsuffix)
    | _ => exact Calls.follows_done trivial

theorem applyStatusUpdate_mediated (now : Timestamp) (target : AgreementStatus) :
    Mediated (.webhook payload) (fun _ _ => True)
      (Webhooks.applyStatusUpdate now payload contractId target) history := by
  refine mediated_read rfl fun found _ => ?_
  rcases found with e | ⟨_ | current⟩
  · exact Calls.follows_fail _
  · exact writeStatus_mediated hcontract now target
  · dsimp only
    split
    · exact logActivity_mediated (webhook_entitled hcontract (.inl List.mem_cons_self))
    · exact writeStatus_mediated hcontract now target

theorem applyMilestoneUpdate_mediated (now : Timestamp) :
    Mediated (.webhook payload) (fun _ _ => True)
      (Webhooks.applyMilestoneUpdate now payload contractId) history := by
  refine mediated_read rfl fun found _ => ?_
  rcases found with e | ⟨_ | agreement⟩
  · exact Calls.follows_done trivial
  · exact Calls.follows_done trivial
  · refine Calls.follows_ofExcept fun edited _ => ?_
    cases edited with
    | none => exact Calls.follows_done trivial
    | some milestones =>
        refine Calls.follows_ask (fun _ _ => ⟨payload, rfl, hcontract⟩) fun updated _ => ?_
        cases updated with
        | error e => exact Calls.follows_fail _
        | ok _ =>
            refine logActivity_mediated (webhook_entitled hcontract (.inl ?_))
            exact List.mem_cons_of_mem _ List.mem_cons_self

theorem applyInfoUpdate_mediated :
    Mediated (.webhook payload) (fun _ _ => True) (Webhooks.applyInfoUpdate payload contractId)
      history := by
  refine mediated_read rfl fun found _ => ?_
  rcases found with e | ⟨_ | agreement⟩
  · exact Calls.follows_done trivial
  · exact Calls.follows_done trivial
  · dsimp only [Wallets.Reply.data]
    split
    · exact logActivity_mediated (webhook_entitled hcontract (.inl List.mem_cons_self))
    · exact Calls.follows_fail _

end Webhooks

theorem handleEvent_mediated (now : Timestamp) (payload : Value) :
    Mediated (.webhook payload) (fun _ _ => True) (Webhooks.handleEvent now payload) history := by
  unfold Webhooks.handleEvent
  split
  · rename_i event contractId hevent hcontract
    split
    · rename_i config hconfig
      cases config with
      | statusUpdate target => exact applyStatusUpdate_mediated hcontract now target
      | milestoneUpdate => exact applyMilestoneUpdate_mediated hcontract now
      | info => exact applyInfoUpdate_mediated hcontract
      | withoutAction => exact Calls.follows_done trivial
      | notStored => exact Calls.follows_fail _
    · exact Calls.follows_done trivial
  · exact Calls.follows_fail _

/-- Every program keeps to the rules of its request. -/
theorem program_mediated (F : FloatArithmetic) (o : Operation) :
    Mediated o.request (fun _ _ => True) (o.program F) [] := by
  obtain ⟨now, request⟩ := o
  have hdone : ∀ {α : Type} {f : α → AgreementAnswer} {p : AgreementProgram α},
      Mediated request (fun _ _ => True) p [] →
        Mediated request (fun _ _ => True) (p >>= fun a => .done (f a)) [] :=
    fun hp => hp.bind fun _ _ => Calls.follows_done trivial
  cases request with
  | create userId dto => exact hdone (create_mediated F userId dto)
  | linkContract userId id dto fetch => exact hdone (linkContract_mediated now userId id dto fetch)
  | updateStatus userId id dto => exact hdone (updateStatus_mediated now userId id dto)
  | updateMilestone userId id dto => exact hdone (updateMilestone_mediated F now userId id dto)
  | openDispute userId dto => exact hdone (openDispute_mediated now userId dto)
  | assignResolver userId id dto => exact hdone (assignResolver_mediated now userId id dto)
  | resolveDispute userId id dto => exact hdone (resolveDispute_mediated F now userId id dto)
  | cancelDispute userId id dto => exact hdone (cancelDispute_mediated now userId id dto)
  | webhook payload => exact hdone (handleEvent_mediated now payload)
  | sync id fetch =>
      have hsyncs : (AgreementRequest.sync id fetch).Syncs id := fun _ _ _ => ⟨rfl, rfl⟩
      exact hdone (doSync_mediated hsyncs now fetch)
  | reconcile id first second =>
      have hsyncs : (AgreementRequest.reconcile id first second).Syncs id := fun _ _ _ => ⟨rfl, rfl⟩
      exact hdone (doReconcile_mediated hsyncs now first second)
  | syncStatusTransition id source target =>
      have hsyncs : (AgreementRequest.syncStatusTransition id source target).Syncs id :=
        fun _ _ _ => ⟨rfl, rfl⟩
      exact hdone (syncStatusTransition_mediated hsyncs now source target)

end Programs

/-! ## Every interleaving -/

section Interleavings

variable {F : FloatArithmetic} {T : Traffic} {c c' : AgreementConfig T} {l : AgreementLabel T}

/-- What every run keeps: the programs follow the rules, and what requests were told stands. -/
structure MediationInv (c : AgreementConfig T) : Prop where
  disciplined : Disciplined Sound
    (fun o call history => Attests Tells history fun db => Permits db history o.request call)
    (fun _ _ _ => True) c
  recalling : Calls.Recalling (fun _ call x (s : AgreementStore) => Tells call x s.db) c

/-- The query that a request is at is permitted on the store as it is. -/
theorem MediationInv.permits (h : MediationInv c) {t : ℕ} {req : Served T} {call : AgreementCall}
    {history : QueryHistory} {cont : call.reply → TracedProgram}
    (hk : c.threads t = some ⟨req, .call (call, history) cont⟩) :
    Permits c.shared.db history req.operation.request call :=
  (h.disciplined.next hk).1 c.shared.db (h.recalling.held t _ hk)

/-- A step leaves standing what requests were told. -/
theorem MediationInv.continues (h : MediationInv c)
    (hstep : (interleavingSystem F T).step c l c') : Continues c.shared.db c'.shared.db := by
  cases Calls.step_cases hstep with
  | start t req hfree => exact .refl _
  | act t act req call cont x s hk hexec =>
      exact hexec.1.executes.continues (keepsWallets_of_permits (h.permits hk))
  | env b => exact nomatch b

theorem MediationInv.step (h : MediationInv c) (hstep : (freshSystem F T).step c l c') :
    MediationInv c' := by
  obtain ⟨hstep, hfresh⟩ := hstep
  have hcontinues := h.continues hstep
  constructor
  · refine h.disciplined.step (fun o _ => program_mediated F o) ?_ hstep
    intro act call x db' hx
    exact ⟨db', hx.executes.tells⟩
  · refine h.recalling.step (S := interleaving F T) (fun req => ⟨_, rfl⟩) ?_ ?_ hstep
    · intro act req call x s hexec
      exact hexec.1.executes.tells
    · intro t k hk hheld
      exact hcontinues.held (fun b hb hnew => hfresh b hb hnew t k hk) hheld

theorem mediationInv_of_reachable (h : (freshSystem F T).Reachable c) : MediationInv c := by
  refine StepSystem.invariant_of_steps (M := freshSystem F T) (I := MediationInv) ?_ ?_ h
  · intro c hinit
    exact ⟨disciplined_init hinit, Calls.recalling_of_none hinit.2⟩
  · intro c l c' _ hI hstep
    exact hI.step hstep

/-- **Complete mediation.** However requests interleave and whichever queries fail, the query that a
request makes next is one that the rules of its service permit on the store as it is then; resolvers and the
rows of webhooks are judged by what the request was told. -/
theorem complete_mediation (h : (freshSystem F T).Reachable c) {t : ℕ} {req : Served T}
    {call : AgreementCall} {history : QueryHistory} {cont : call.reply → TracedProgram}
    (hk : c.threads t = some ⟨req, .call (call, history) cont⟩) :
    Permits c.shared.db history req.operation.request call :=
  (mediationInv_of_reachable h).permits hk

end Interleavings

/-! ## A request at its write -/

section Example

open Calls (Move)

/-- Every request, on any store. -/
def allTraffic : Traffic where
  serves _ := true
  startsFrom _ := True

/-- The next query adds no agreement. -/
def addsNone {T : Traffic} (_ : AgreementStore) (tasks : List (AgreementTask T)) :
    Move (Served T) → Bool
  | .start _ => true
  | .next t => match tasks[t]? with
    | some ⟨_, .call (.insertAgreement _, _) _⟩ => false
    | _ => true

theorem addsNoAgreement_of_addsNone {F : FloatArithmetic} {T : Traffic} {s : AgreementStore}
    {tasks : List (AgreementTask T)} {m : Move (Served T)} (h : addsNone s tasks m = true) :
    AddsNoAgreement (Calls.begun s tasks) (m.label (interleaving F T) .answer tasks) := by
  cases m with
  | start req => trivial
  | next t =>
      rintro req call history cont hk new rfl
      have htask : tasks[t]? = some ⟨req, .call (.insertAgreement new, history) cont⟩ := hk
      rw [addsNone, htask] at h
      cases h

/-- An agreement that `payer` has created. -/
def mediatedAgreement : Agreement := (sampleDto "10" none splitTen).row.row "a" 0

/-- The agreement, and both parties as users. -/
def mediatedStore : AgreementStore := ⟨storeWith twoParties [mediatedAgreement] [], []⟩

/-- `payer` approves the first milestone. -/
def approveFirst : Served allTraffic where
  operation := ⟨0, .updateMilestone "payer" "a" ⟨0, .approved, "P", none, none⟩⟩
  isServed := rfl

/-- The task is about to write an agreement. -/
def aboutToUpdate {T : Traffic} (k : AgreementTask T) : Bool :=
  (Calls.nextCall k.rest).any fun call => call.1.rowUpdates.isSome

theorem complete_mediation_update : ∃ (c : AgreementConfig allTraffic) (req : Served allTraffic)
    (call : AgreementCall) (history : QueryHistory),
    (freshSystem exactArithmetic allTraffic).Reachable c ∧ call.rowUpdates.isSome = true ∧
      Permits c.shared.db history req.operation.request call := by
  have hrun : ((playFrom exactArithmetic _ addsNone mediatedStore
      (.start approveFirst :: List.replicate 6 (.next 0))).any fun state =>
        state.2[0]?.any aboutToUpdate) = true := by decide +kernel
  obtain ⟨state, hstate, htask⟩ := (Option.any_eq_true _ _).mp hrun
  obtain ⟨⟨req, rest⟩, hk, habout⟩ := (Option.any_eq_true _ _).mp htask
  have hreach : (freshSystem exactArithmetic allTraffic).Reachable (Calls.begun state.1 state.2) :=
    fresh_of_guarded
      (reachable_playFrom trivial rfl (fun _ _ _ => addsNoAgreement_of_addsNone) hstate)
  cases rest with
  | done out => cases habout
  | fail e => cases habout
  | call query cont =>
      exact ⟨_, req, query.1, query.2, hreach, habout, complete_mediation hreach hk⟩

end Example

end ThalosBackend.Agreements
