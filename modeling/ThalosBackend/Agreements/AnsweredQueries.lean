import ThalosBackend.Agreements.AgreementsService

/-!
# Answered queries

The operations when no query fails. Each rule says what an answered query tells about the store, so
that a program is followed statement by statement; `agreementAt` and `disputeAt` are what a search by
id finds, and `accepts` is what the lifecycle says of a change of status.

`updateStatus` and `create` are followed here; each either leaves the tables alone or writes one row.
-/

set_option autoImplicit false

namespace ThalosBackend.Agreements

open Js (nonEmpty)

namespace AgreementDb

/-- The agreement under an id. -/
def agreementAt (db : AgreementDb) (id : String) : Option Agreement :=
  Table.sole (db.agreements.filter fun a => a.id = id)

/-- The dispute under an id. -/
def disputeAt (db : AgreementDb) (id : String) : Option Dispute :=
  Table.sole (db.disputes.filter fun d => d.id = id)

/-- The agreement is there and may move to the status. -/
def accepts (db : AgreementDb) (agreementId : String) (target : AgreementStatus) : Bool :=
  (db.agreementAt agreementId).any fun a => canTransition (statusText a.status) target.text

/-- The store after a change of status. -/
def changeStatus (db : AgreementDb) (now : Js.Timestamp) (agreementId : String)
    (target : AgreementStatus) : AgreementDb :=
  db.updateAgreements (fun a => a.id = agreementId) (statusUpdates now target.text)

/-- The store after a change of a dispute. -/
def changeDispute (db : AgreementDb) (disputeId : String) (updates : DisputeUpdates) : AgreementDb :=
  { db with
    disputes := Table.updateWhere (fun d => d.id = disputeId) (Dispute.apply updates) db.disputes }

end AgreementDb

theorem mem_of_agreementAt {db : AgreementDb} {id : String} {a : Agreement}
    (h : db.agreementAt id = some a) : a ∈ db.agreements ∧ a.id = id := by
  have hmem : a ∈ db.agreements.filter fun a => a.id = id := by
    rw [Table.sole_eq_some.mp h]
    exact List.mem_singleton_self a
  simpa using List.mem_filter.mp hmem

theorem id_of_disputeAt {db : AgreementDb} {id : String} {d : Dispute} (h : db.disputeAt id = some d) :
    d ∈ db.disputes ∧ d.id = id := by
  have hmem : d ∈ db.disputes.filter fun d => d.id = id := by
    rw [Table.sole_eq_some.mp h]
    exact List.mem_singleton_self d
  simpa using List.mem_filter.mp hmem

/-- The only dispute under an id. -/
theorem eq_of_disputeAt {db : AgreementDb} {id : String} {d d' : Dispute}
    (h : db.disputeAt id = some d) (hd' : d' ∈ db.disputes) (hid : d'.id = id) : d' = d := by
  have hmem : d' ∈ db.disputes.filter fun d => d.id = id :=
    List.mem_filter.mpr ⟨hd', by simpa using hid⟩
  rw [Table.sole_eq_some.mp h] at hmem
  exact List.mem_singleton.mp hmem

/-- A change of the dispute under an id that leaves it as it is. -/
theorem changeDispute_eq_self_iff {db : AgreementDb} {id : String} {d : Dispute}
    {updates : DisputeUpdates} (h : db.disputeAt id = some d) :
    (db.changeDispute id updates).disputes = db.disputes ↔ d.apply updates = d := by
  rw [AgreementDb.changeDispute, Table.updateWhere_eq_self_iff]
  constructor
  · intro hall
    obtain ⟨hmem, hid⟩ := id_of_disputeAt h
    exact hall d hmem (by simpa using hid)
  · intro hself d' hd' hid
    rw [eq_of_disputeAt h hd' (by simpa using hid)]
    exact hself

theorem data_maybeSingle {α : Type} (rows : List α) :
    Wallets.Reply.data (Wallets.maybeSingle rows) = Table.sole rows := by
  match rows with
  | [] => rfl
  | [_] => rfl
  | _ :: _ :: _ => rfl

/-! ## Answered queries -/

section Answered

open Calls (ask Ensures)

variable {α : Type} {db : AgreementDb} {Q : Except HttpException α → AgreementDb → Prop}

theorem Answers.executes (c : AgreementCall) (db : AgreementDb) (x : c.reply) (db' : AgreementDb)
    (h : Answers c db x db') : Executes c db x db' := .inl h

/-- A quiet program. -/
theorem Quiet.answered {p : AgreementProgram α} (h : Quiet p)
    (hQ : ∀ out db', SameTables db db' → Q out db') : Ensures Answers p db Q :=
  Calls.Ensures.of_exec (Quiet.ensures h hQ) Answers.executes

theorem answered_getAgreement {id : String} {f : Wallets.Reply Agreement → AgreementProgram α}
    (hsome : ∀ a, db.agreementAt id = some a → Ensures Answers (f (.ok a)) db Q)
    (hnone : db.agreementAt id = none → ∀ e, Ensures Answers (f (.error e)) db Q) :
    Ensures Answers (ask (AgreementCall.getAgreement id) >>= f) db Q := by
  refine Calls.ensures_ask fun x db₁ hx => ?_
  obtain ⟨hx, rfl⟩ := hx
  split at hx
  · rename_i a ha
    subst hx
    exact hsome a (Table.sole_eq_some.mpr ha)
  · rename_i hmany
    subst hx
    refine hnone ?_ _
    match hfilter : db₁.agreements.filter (fun a => a.id = id), hmany with
    | [], _ => simp [AgreementDb.agreementAt, hfilter, Table.sole]
    | [a], hmany => exact absurd hfilter (hmany a)
    | _ :: _ :: _, _ => simp [AgreementDb.agreementAt, hfilter, Table.sole]

theorem answered_findDispute {id : String}
    {f : Wallets.Reply (Option Dispute) → AgreementProgram α}
    (h : ∀ x, Wallets.Reply.data x = db.disputeAt id → Ensures Answers (f x) db Q) :
    Ensures Answers (ask (AgreementCall.findDispute id) >>= f) db Q := by
  refine Calls.ensures_ask fun x db₁ hx => ?_
  obtain ⟨rfl, rfl⟩ := hx
  exact h _ (data_maybeSingle _)

/-- The entry in the log and the event come after the tables. -/
theorem answered_logActivity {row : Activity} {f : Unit → AgreementProgram α}
    (h : ∀ db', SameTables db db' → Ensures Answers (f ()) db' Q) :
    Ensures Answers (logActivity row >>= f) db Q := by
  refine Calls.ensures_bind.mpr fun x db' hx => ⟨fun _ _ => h db' ?_, fun e he => by cases he⟩
  exact (Answers.executes _ _ _ _ hx).sameTables rfl

theorem answered_emit {event : AgreementEvent} {f : Unit → AgreementProgram α}
    (h : ∀ db', SameTables db db' → Ensures Answers (f ()) db' Q) :
    Ensures Answers (emit event >>= f) db Q := by
  refine Calls.ensures_bind.mpr fun x db' hx => ⟨fun _ _ => h db' ?_, fun e he => by cases he⟩
  exact (Answers.executes _ _ _ _ hx).sameTables rfl

theorem answered_emitStatus {now : Js.Timestamp} {a : Agreement} {id wallet target : String}
    {f : Unit → AgreementProgram α} (h : ∀ db', SameTables db db' → Ensures Answers (f ()) db' Q) :
    Ensures Answers (emitStatus now a id wallet target >>= f) db Q := by
  unfold emitStatus
  split
  · exact answered_emit h
  · exact h db (.refl db)

theorem validated_iff_accepts {agreementId : String} {target : AgreementStatus} {a : Agreement}
    (ha : db.agreementAt agreementId = some a) :
    AgreementValidationService.validateTransition (statusText a.status) target.text = .ok none ↔
      db.accepts agreementId target = true := by
  rw [AgreementValidationService.validateTransition_eq_ok, AgreementDb.accepts, ha, Option.any_some]

/-- What is refused leaves the store alone; what is accepted changes the status. -/
theorem answered_applyStatusChange {now : Js.Timestamp} {agreementId wallet : String}
    {target : AgreementStatus} {enforce : Bool} {details : List (String × Js.Value)}
    {f : StatusChangeResult → AgreementProgram α}
    (hrefused : (enforce = true ∨ db.agreementAt agreementId = none) →
      db.accepts agreementId target = false →
      (∀ result, result.success = false → Ensures Answers (f result) db Q) ∧ ∀ e, Q (.error e) db)
    (haccepted : (enforce = true → db.accepts agreementId target = true) →
      ∀ result db', result.success = true → SameTables (db.changeStatus now agreementId target) db' →
        Ensures Answers (f result) db' Q) :
    Ensures Answers (applyStatusChange now agreementId wallet target enforce details >>= f) db Q := by
  refine Calls.ensures_bind.mpr (answered_getAgreement (fun a ha => ?_) fun hnone e => ?_)
  · have hrefusal : enforced enforce (statusText a.status) target.text ≠ .ok none →
        enforce = true ∧ db.accepts agreementId target = false := by
      intro hne
      cases enforce with
      | false => exact absurd rfl hne
      | true =>
          refine ⟨rfl, ?_⟩
          rw [Bool.eq_false_iff]
          exact fun haccepts => hne ((validated_iff_accepts ha).mpr haccepts)
    refine Calls.ensures_bind.mpr (Calls.ensures_ofExcept.mpr ⟨fun refused hvalid => ?_,
      fun e hvalid => ?_⟩)
    · cases refused with
      | some reason =>
          -- the table refuses the transition, and the row stays
          obtain ⟨henforce, hno⟩ := hrefusal (by rw [hvalid]; simp)
          refine ⟨fun result hresult => ?_, fun _ he => by cases he⟩
          cases hresult
          exact (hrefused (.inl henforce) hno).1 _ rfl
      | none =>
          -- without enforcement every status is accepted
          have hyes : enforce = true → db.accepts agreementId target = true := by
            rintro rfl
            exact (validated_iff_accepts ha).mp hvalid
          refine Calls.ensures_ask fun x db₁ hx => ?_
          obtain ⟨rfl, rfl⟩ := hx
          refine answered_logActivity fun db₂ h₂ => ?_
          refine answered_emitStatus fun db₃ h₃ => ?_
          refine ⟨fun result hresult => ?_, fun _ he => by cases he⟩
          cases hresult
          exact haccepted hyes _ db₃ rfl (h₂.trans h₃)
    · obtain ⟨henforce, hno⟩ := hrefusal (by rw [hvalid]; simp)
      refine ⟨fun _ hresult => (by cases hresult), fun e' he => ?_⟩
      exact (hrefused (.inl henforce) hno).2 e'
  · have hno : db.accepts agreementId target = false := by
      rw [AgreementDb.accepts, hnone]
      rfl
    refine ⟨fun result hresult => ?_, fun _ he => by cases he⟩
    cases hresult
    exact (hrefused (.inr hnone) hno).1 _ rfl

/-! ## Who may change an agreement -/

/-- The wallets of a user. -/
def ownWallets (db : AgreementDb) (userId : String) : List String :=
  ((db.wallet.walletsOf userId).map Wallets.UserWallet.walletAddress).filter (· ≠ "") ++
    (nonEmpty (db.wallet.publicKey userId)).toList

/-- `assertCanAccessAgreement` and `assertActorWallet` let the user pass. -/
def mayUpdate (db : AgreementDb) (userId agreementId actorWallet : String) : Bool :=
  match db.agreementAt agreementId with
  | none => false
  | some a =>
    (a.createdBy = userId ∨ a.createdBy ∈ ownWallets db userId ∨
      ∃ p ∈ db.participants, p.agreementId = agreementId ∧ p.walletAddress ∈ ownWallets db userId) &&
    actorWallet ∈ ownWallets db userId

theorem answered_resolveUserWallets {userId : String} {f : List String → AgreementProgram α}
    (h : ∀ wallets, (∀ w, w ∈ wallets ↔ w ∈ ownWallets db userId) →
      Ensures Answers (f wallets) db Q) :
    Ensures Answers (resolveUserWallets userId >>= f) db Q := by
  refine Calls.ensures_bind.mpr fun x db₁ hx => ?_
  obtain ⟨wallet, ⟨⟨rows, rfl, hperm, -⟩, rfl⟩, rfl⟩ := hx
  intro y db₂ hy
  obtain ⟨wallet', ⟨rfl, rfl⟩, rfl⟩ := hy
  refine ⟨fun wallets hwallets => h wallets fun w => ?_, fun e he => by cases he⟩
  cases hwallets
  have hrows : w ∈ rows.map Wallets.UserWallet.walletAddress ↔
      w ∈ (db.wallet.walletsOf userId).map Wallets.UserWallet.walletAddress :=
    (hperm.map _).mem_iff
  simp only [List.mem_eraseDups, List.mem_append, List.mem_filter, ownWallets, hrows]
  rfl

/-- A quiet beginning. -/
theorem Quiet.answered_bind {β : Type} {p : AgreementProgram β} {f : β → AgreementProgram α}
    (hp : Quiet p) (hok : ∀ b db', SameTables db db' → Ensures Answers (f b) db' Q)
    (herror : ∀ e db', SameTables db db' → Q (.error e) db') : Ensures Answers (p >>= f) db Q := by
  refine Calls.ensures_bind.mpr (hp.answered fun out db' hsame => ?_)
  exact ⟨fun b _ => hok b db' hsame, fun e _ => herror e db' hsame⟩

theorem answered_assertActorWallet {userId actorWallet : String} {f : Unit → AgreementProgram α}
    (hok : actorWallet ∈ ownWallets db userId → Ensures Answers (f ()) db Q)
    (hrefused : ∀ e, Q (.error e) db) :
    Ensures Answers (assertActorWallet userId actorWallet >>= f) db Q := by
  refine Calls.ensures_bind.mpr (answered_resolveUserWallets fun wallets hwallets => ?_)
  split
  · exact ⟨fun _ he => (by cases he), fun e _ => hrefused e⟩
  · split
    · exact ⟨fun _ he => (by cases he), fun e _ => hrefused e⟩
    · rename_i hmem
      exact ⟨fun _ _ => hok ((hwallets _).mp (not_not.mp hmem)), fun e he => by cases he⟩

/-- A user who may access an agreement created it, or is one of its participants. -/
theorem answered_userCanAccessAgreement {userId agreementId createdBy : String}
    {f : Bool → AgreementProgram α}
    (h : ∀ allowed, (allowed = true → createdBy = userId ∨ createdBy ∈ ownWallets db userId ∨
      ∃ p ∈ db.participants, p.agreementId = agreementId ∧ p.walletAddress ∈ ownWallets db userId) →
      Ensures Answers (f allowed) db Q) :
    Ensures Answers (userCanAccessAgreement userId agreementId createdBy >>= f) db Q := by
  refine Calls.ensures_bind.mpr (answered_resolveUserWallets fun wallets hwallets => ?_)
  split
  · refine ⟨fun allowed hallowed => h allowed ?_, fun _ he => by cases he⟩
    cases hallowed
    intro hfalse
    cases hfalse
  · split
    · rename_i hcreator
      refine ⟨fun allowed hallowed => h allowed fun _ => ?_, fun _ he => by cases he⟩
      rcases hcreator with hcreator | hcreator
      · exact .inl hcreator
      · exact .inr (.inl ((hwallets _).mp hcreator))
    · refine Calls.ensures_ask fun parts db₁ hparts => ?_
      obtain ⟨hparts, rfl⟩ := hparts
      refine ⟨fun allowed hallowed => h allowed fun hyes => ?_, fun _ he => by cases he⟩
      cases hallowed
      split at hparts
      · subst hparts
        cases hyes
      · rename_i p ps hsomebody
        obtain ⟨q, hq, rfl⟩ := hparts
        rw [← hsomebody, List.mem_filter] at hq
        have hwallet : q.agreementId = agreementId ∧ q.walletAddress ∈ wallets := by
          simpa using hq.2
        exact .inr (.inr ⟨q, hq.1, hwallet.1, (hwallets _).mp hwallet.2⟩)

theorem answered_assertCanAccessAgreement {userId agreementId : String} (actorWallet : String)
    {f : Unit → AgreementProgram α}
    (hok : (actorWallet ∈ ownWallets db userId → mayUpdate db userId agreementId actorWallet = true) →
      Ensures Answers (f ()) db Q)
    (hrefused : ∀ e, Q (.error e) db) :
    Ensures Answers (assertCanAccessAgreement userId agreementId >>= f) db Q := by
  refine Calls.ensures_bind.mpr (Calls.ensures_ask fun x db₁ hx => ?_)
  obtain ⟨rfl, rfl⟩ := hx
  rw [data_maybeSingle]
  split
  · exact ⟨fun _ he => (by cases he), fun e _ => hrefused e⟩
  · rename_i a ha
    have hfound : db₁.agreementAt agreementId = some a := ha
    refine answered_userCanAccessAgreement fun allowed haccess => ?_
    split
    · rename_i hallowed
      refine ⟨fun _ _ => hok fun hactor => ?_, fun _ he => by cases he⟩
      simp only [mayUpdate, hfound, haccess hallowed, hactor, decide_true, Bool.and_self]
    · exact ⟨fun _ he => (by cases he), fun e _ => hrefused e⟩

/-- `updateStatus` leaves the tables alone, or makes an accepted change for a caller who may. -/
theorem updateStatus_outcome {now : Js.Timestamp} {userId agreementId : String}
    {dto : UpdateAgreementStatusDto} :
    Ensures Answers (updateStatus now userId agreementId dto) db fun _ db' => SameTables db db' ∨
      mayUpdate db userId agreementId dto.actorWallet = true ∧
        db.accepts agreementId dto.status = true ∧
          SameTables (db.changeStatus now agreementId dto.status) db' := by
  refine answered_assertCanAccessAgreement dto.actorWallet (fun hmay => ?_)
    fun e => .inl (.refl db)
  refine answered_assertActorWallet (fun hactor => ?_) fun e => .inl (.refl db)
  refine answered_getAgreement (fun a ha => ?_) fun _ e => .inl (.refl db)
  refine Calls.ensures_bind.mpr (Calls.ensures_ofExcept.mpr ⟨fun refused hvalid => ?_,
    fun e hvalid => .inl (.refl db)⟩)
  cases refused with
  | some reason => exact .inl (.refl db)
  | none =>
      have haccepts := (validated_iff_accepts ha).mp hvalid
      dsimp only
      split
      · exact .inl (.refl db)
      · refine Calls.ensures_ask fun x db₁ hx => ?_
        obtain ⟨rfl, rfl⟩ := hx
        refine Quiet.answered ?_ fun out db' hsame => .inr ⟨hmay hactor, haccepts, hsame⟩
        exact (logActivity_quiet _).bind fun _ => (inBackground_quiet _).bind fun _ =>
          (emitStatus_quiet _ _ _ _ _).bind fun _ => quiet_done _

/-- `create` leaves the tables alone, or adds a row under a fresh id. -/
theorem create_outcome {F : Js.FloatArithmetic} {userId : String} {dto : CreateAgreementDto} :
    Calls.LeadsTo Answers (fun db' => SameTables db db' ∨ ∃ id created, (∀ a ∈ db.agreements, a.id ≠ id) ∧
      SameTables { db with agreements := db.agreements ++ [dto.row.row id created] } db')
      (create F userId dto) db := by
  refine ⟨?_⟩
  unfold create
  split
  · exact .inl (.refl db)
  · refine (assertActorWallet_quiet _ _).answered_bind (fun _ db₁ h₁ => ?_)
      fun e db₁ h₁ => .inl h₁
    refine Calls.ensures_ask fun x db₂ hx => ?_
    obtain ⟨id, created, hfresh, rfl, rfl⟩ := hx
    refine Calls.ensures_ask fun y db₃ hy => ?_
    obtain ⟨rfl, rfl⟩ := hy
    rw [h₁.agreements] at hfresh ⊢
    refine (afterCreate_quiet _ _).answered fun out db' hsame => .inr ⟨id, created, hfresh, ?_⟩
    exact ⟨hsame.wallet.trans h₁.wallet, hsame.agreements, hsame.disputes.trans h₁.disputes,
      hsame.resolutions.trans h₁.resolutions⟩

end Answered

end ThalosBackend.Agreements
