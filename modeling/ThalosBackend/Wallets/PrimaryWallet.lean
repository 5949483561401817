import ThalosBackend.Agreements.AnsweredQueries
import ThalosBackend.Agreements.AnsweringDb
import ThalosBackend.Wallets.BindingSafety

/-!
# The primary wallet of a user

The unique index allows a user one primary wallet. `linkWallet` makes the first wallet primary,
`updateWallet` makes another one primary after it has unset the rest, and `unlinkWallet` promotes a
wallet that is left when the primary one goes. `updateWallet` also unsets `is_primary` when it is told
to, and nothing is promoted then.

In the runs without such an update of a primary wallet, every user with a wallet has exactly one
primary wallet after every operation.
-/

set_option autoImplicit false

namespace ThalosBackend.Wallets

open Js (Timestamp nonEmpty)
open Calls (ask Ensures Only)

/-! ## Runs -/

/-- The operations on wallets one after the other, every query answered, from tables without
wallets. -/
def walletRuns (env : WalletEnv) : StepSystem WalletDb WalletRequest where
  init db := db.wallets = []
  step db req db' := ∃ out, Calls.Runs Answers (req.program env) db out db'

/-- Every user with a wallet has exactly one primary wallet. -/
def OnePrimary (db : WalletDb) : Prop :=
  ∀ userId, db.walletsOf userId ≠ [] →
    ((db.walletsOf userId).filter fun w => w.isPrimary = some true).length = 1

/-- The update sets `is_primary`, or leaves it alone. -/
def UpdateWalletDto.keeps (dto : UpdateWalletDto) : Bool :=
  dto.isPrimary = none ∨ dto.isPrimary = some (some true)

/-- The request does not unset `is_primary` on a primary wallet of the user. -/
def keepsPrimary (db : WalletDb) (req : WalletRequest) : Bool :=
  match req.op with
  | .update walletId dto => dto.keeps ∨
      ∀ w ∈ db.walletsOf req.userId, w.id = walletId → w.isPrimary ≠ some true
  | _ => true

/-! ## Primary rows -/

/-- The row is primary. -/
abbrev UserWallet.Primary (w : UserWallet) : Prop := w.isPrimary = some true

section Rows

variable {rows : List UserWallet}

/-- Two primary rows of one user are the same row. -/
def OneAtMost (rows : List UserWallet) : Prop :=
  ∀ v ∈ rows, v.Primary → ∀ w ∈ rows, w.Primary → v.userId = w.userId → v = w

/-- With every row there is a primary one of the same user. -/
def SomePrimary (rows : List UserWallet) : Prop :=
  ∀ w ∈ rows, ∃ p ∈ rows, p.Primary ∧ p.userId = w.userId

/-- What the unique index on `is_primary` says, when ids are unique. -/
theorem oneAtMost_iff (hid : (rows.map UserWallet.id).Nodup) :
    OneAtMost rows ↔
      ((rows.filter fun w => w.isPrimary = some true).map UserWallet.userId).Nodup := by
  constructor
  · intro h
    have hrows : (rows.filter fun w => w.isPrimary = some true).Nodup :=
      (List.Nodup.of_map _ hid).filter _
    refine hrows.map_on fun v hv w hw huser => ?_
    rw [List.mem_filter, decide_eq_true_eq] at hv hw
    exact h v hv.1 hv.2 w hw.1 hw.2 huser
  · intro h v hv hvp w hw hwp huser
    have hmem : ∀ u ∈ rows, u.Primary → u ∈ rows.filter fun w => w.isPrimary = some true :=
      fun u hu hup => List.mem_filter.mpr ⟨hu, decide_eq_true hup⟩
    exact List.inj_on_of_nodup_map h (hmem v hv hvp) (hmem w hw hwp) huser

/-- The unique indexes and a primary wallet for every user leave exactly one. -/
theorem onePrimary_of {db : WalletDb} (hindexes : UniqueIndexes db.wallets)
    (hsome : SomePrimary db.wallets) : OnePrimary db := by
  intro userId hne
  obtain ⟨w, hw⟩ := List.exists_mem_of_ne_nil _ hne
  obtain ⟨hw, huser⟩ := List.mem_filter.mp hw
  obtain ⟨p, hp, hprimary, hpuser⟩ := hsome w hw
  have hpw : p.userId = userId := hpuser.trans (of_decide_eq_true huser)
  have hone := (oneAtMost_iff hindexes.id).mpr hindexes.isPrimary
  have hnodup : ((db.walletsOf userId).filter fun w => w.isPrimary = some true).Nodup :=
    ((List.Nodup.of_map _ hindexes.id).filter _).filter _
  have hall : ∀ v ∈ (db.walletsOf userId).filter fun w => w.isPrimary = some true, v = p := by
    intro v hv
    simp only [WalletDb.walletsOf, List.mem_filter, decide_eq_true_eq] at hv
    exact hone v hv.1.1 hv.2 p hp hprimary (hv.1.2.trans hpw.symm)
  have hmem : p ∈ (db.walletsOf userId).filter fun w => w.isPrimary = some true := by
    simp only [WalletDb.walletsOf, List.mem_filter, decide_eq_true_eq]
    exact ⟨⟨hp, hpw⟩, hprimary⟩
  rw [List.eq_replicate_of_mem hall] at hnodup ⊢
  rw [List.length_replicate]
  exact Nat.le_antisymm (List.nodup_replicate.mp hnodup) (List.length_pos_of_mem hmem)

/-- An update that leaves ids, addresses and accounts alone and keeps one primary row at most passes
the unique indexes. -/
theorem UniqueIndexes.updateWhere (h : UniqueIndexes rows) {p : UserWallet → Bool}
    {f : UserWallet → UserWallet} (hid : ∀ w, (f w).id = w.id)
    (haddress : ∀ w, ((f w).userId, (f w).walletAddress) = (w.userId, w.walletAddress))
    (haccount : ∀ w, (f w).cAddress = w.cAddress) (hone : OneAtMost (Table.updateWhere p f rows)) :
    UniqueIndexes (Table.updateWhere p f rows) := by
  have hids : ((Table.updateWhere p f rows).map UserWallet.id).Nodup := by
    rw [Table.map_updateWhere fun w _ => hid w]
    exact h.id
  refine ⟨hids, ?_, (oneAtMost_iff hids).mp hone, ?_⟩
  · rw [Table.map_updateWhere fun w _ => haddress w]
    exact h.address
  · have hcolumn : ∀ rows' : List UserWallet, rows'.filterMap UserWallet.cAddress =
        (rows'.map UserWallet.cAddress).filterMap fun c => c := by
      intro rows'
      rw [List.filterMap_map]
      rfl
    rw [hcolumn, Table.map_updateWhere fun w _ => haccount w, ← hcolumn]
    exact h.cAddress

/-- A row less keeps the unique indexes. -/
theorem UniqueIndexes.filter (h : UniqueIndexes rows) (p : UserWallet → Bool) :
    UniqueIndexes (rows.filter p) := by
  have hsub : (rows.filter p).Sublist rows := List.filter_sublist
  refine ⟨h.id.sublist (hsub.map _), h.address.sublist (hsub.map _), ?_, ?_⟩
  · exact h.isPrimary.sublist ((hsub.filter _).map _)
  · exact h.cAddress.sublist (hsub.filterMap _)

/-- An update that makes no row primary keeps one primary row at most. -/
theorem OneAtMost.updateWhere (h : OneAtMost rows) {p : UserWallet → Bool}
    {f : UserWallet → UserWallet} (husers : ∀ w, (f w).userId = w.userId)
    (hold : ∀ w ∈ rows, p w = true → (f w).Primary → w.Primary) :
    OneAtMost (Table.updateWhere p f rows) := by
  have hbefore : ∀ w ∈ Table.updateWhere p f rows, ∃ old ∈ rows,
      w = (if p old then f old else old) ∧ w.userId = old.userId ∧ (w.Primary → old.Primary) := by
    intro w hw
    obtain ⟨old, hmem, hw⟩ := Table.mem_updateWhere.mp hw
    refine ⟨old, hmem, hw, ?_⟩
    cases hp : p old with
    | true =>
        rw [hp, if_pos rfl] at hw
        exact hw ▸ ⟨husers old, hold old hmem hp⟩
    | false =>
        rw [hp, if_neg Bool.false_ne_true] at hw
        exact hw ▸ ⟨rfl, fun hprimary => hprimary⟩
  intro v hv hvp w hw hwp huser
  obtain ⟨v₀, hv₀, hv, hvuser, hvold⟩ := hbefore v hv
  obtain ⟨w₀, hw₀, hw, hwuser, hwold⟩ := hbefore w hw
  have hsame := h v₀ hv₀ (hvold hvp) w₀ hw₀ (hwold hwp) (hvuser.symm.trans (huser.trans hwuser))
  rw [hv, hw, hsame]

/-- An update that unsets no primary row keeps a primary row for every user. -/
theorem SomePrimary.updateWhere (h : SomePrimary rows) {p : UserWallet → Bool}
    {f : UserWallet → UserWallet} (husers : ∀ w, (f w).userId = w.userId)
    (hkeeps : ∀ w ∈ rows, p w = true → w.Primary → (f w).Primary) :
    SomePrimary (Table.updateWhere p f rows) := by
  have hstays : ∀ w ∈ rows, ∃ q ∈ Table.updateWhere p f rows, q.Primary ∧ q.userId = w.userId := by
    intro w hw
    obtain ⟨q, hq, hprimary, huser⟩ := h w hw
    refine ⟨_, Table.mem_updateWhere.mpr ⟨q, hq, rfl⟩, ?_⟩
    cases hp : p q with
    | true => exact ⟨hkeeps q hq hp hprimary, (husers q).trans huser⟩
    | false => exact ⟨hprimary, huser⟩
  refine Table.forall_mem_updateWhere (fun w hw _ => hstays w hw) (fun w hw _ => ?_)
  rw [husers]
  exact hstays w hw

end Rows

/-! ## What one query does -/

/-- The wallets as the operations keep them. -/
structure PrimaryInvariant (db : WalletDb) : Prop where
  indexes : UniqueIndexes db.wallets
  primary : SomePrimary db.wallets

section Queries

variable {db db' : WalletDb}

theorem PrimaryInvariant.one (h : PrimaryInvariant db) : OneAtMost db.wallets :=
  (oneAtMost_iff h.indexes.id).mpr h.indexes.isPrimary

/-- An insert adds its row, or nothing. -/
theorem insertWallet_done {new : NewWallet} {x : Reply UserWallet}
    (h : Answers (.insertWallet new) db x db') : db'.wallets = db.wallets ∨
      ∃ id created, UniqueIndexes (db.wallets ++ [new.row id created]) ∧
        db'.wallets = db.wallets ++ [new.row id created] := by
  simp only [Answers] at h
  split at h
  · exact .inl (by rw [h.2])
  · obtain ⟨id, created, h⟩ := h
    split at h
    · rename_i hunique
      exact .inr ⟨id, created, hunique, by rw [h.2]⟩
    · exact .inl (by rw [h.2])

/-- A row that is primary, or whose user has a wallet already, may be added. -/
theorem PrimaryInvariant.insert (h : PrimaryInvariant db) {new : NewWallet} {x : Reply UserWallet}
    (hx : Answers (.insertWallet new) db x db')
    (hnew : new.isPrimary = true ∨ ∃ w ∈ db.wallets, w.userId = new.userId) :
    PrimaryInvariant db' := by
  rcases insertWallet_done hx with hsame | ⟨id, created, hunique, hadded⟩
  · exact ⟨hsame ▸ h.indexes, hsame ▸ h.primary⟩
  · refine ⟨hadded ▸ hunique, ?_⟩
    rw [hadded]
    have hstays : ∀ w ∈ db.wallets, ∃ p ∈ db.wallets ++ [new.row id created], p.Primary ∧
        p.userId = w.userId := by
      intro w hw
      obtain ⟨p, hp, hprimary⟩ := h.primary w hw
      exact ⟨p, List.mem_append_left _ hp, hprimary⟩
    intro w hw
    rcases List.mem_append.mp hw with hw | hw
    · exact hstays w hw
    · rw [List.mem_singleton.mp hw]
      rcases hnew with hprimary | ⟨v, hv, huser⟩
      · have hmem : new.row id created ∈ db.wallets ++ [new.row id created] :=
          List.mem_append_right _ (List.mem_singleton_self _)
        exact ⟨new.row id created, hmem, congrArg some hprimary, rfl⟩
      · obtain ⟨p, hp, hprimary, hpuser⟩ := hstays v hv
        exact ⟨p, hp, hprimary, hpuser.trans huser⟩

/-- An update of one row writes it and checks the indexes, or leaves the tables alone. -/
theorem updateOne_done (db : WalletDb) (walletId : String) (f : UserWallet → UserWallet) :
    (db.updateOne walletId f).2 = db ∨
      UniqueIndexes (Table.updateWhere (fun w => w.id = walletId) f db.wallets) ∧
      (db.updateOne walletId f).2.wallets =
        Table.updateWhere (fun w => w.id = walletId) f db.wallets := by
  simp only [WalletDb.updateOne]
  split
  · exact .inl rfl
  · split
    · rename_i hunique
      exact .inr ⟨hunique, rfl⟩
    · exact .inl rfl

/-- The wallet that `getWallet` finds. -/
theorem getWallet_found {walletId userId : String} {x : Reply (Option UserWallet)}
    (h : Answers (.getWallet walletId userId) db x db') : db' = db ∧ ∀ w, Reply.data x = some w →
      w ∈ db.wallets ∧ w.id = walletId ∧ w.userId = userId := by
  obtain ⟨rfl, rfl⟩ := h
  refine ⟨rfl, fun w hw => ?_⟩
  rw [Agreements.data_maybeSingle, Table.sole_eq_some] at hw
  have hmem := hw ▸ List.mem_singleton_self w
  simpa using List.mem_filter.mp hmem

/-- An update of a wallet that is there and that the indexes allow is written. -/
theorem updateOne_written {walletId : String} {f : UserWallet → UserWallet} {w : UserWallet}
    (hw : w ∈ db.wallets) (hid : w.id = walletId) (hids : ∀ v, (f v).id = v.id)
    (hunique : UniqueIndexes (Table.updateWhere (fun w => w.id = walletId) f db.wallets)) :
    (db.updateOne walletId f).2.wallets =
      Table.updateWhere (fun w => w.id = walletId) f db.wallets := by
  have hthere : ((db.updateWallets (fun w => w.id = walletId) f).wallets.find? fun w =>
      w.id = walletId).isSome = true := by
    rw [List.find?_isSome]
    refine ⟨_, Table.mem_updateWhere.mpr ⟨w, hw, rfl⟩, ?_⟩
    simp [hid, hids]
  simp only [WalletDb.updateOne]
  split
  · rename_i hnone
    rw [hnone] at hthere
    cases hthere
  · split
    · rfl
    · rename_i hno
      exact absurd hunique hno

/-- A wallet of a user who has no other primary one may become primary. -/
theorem promote {rows : List UserWallet} (h : UniqueIndexes rows) {w : UserWallet} (hw : w ∈ rows)
    (halone : ∀ v ∈ rows, v.userId = w.userId → v.Primary → v.id = w.id)
    (hothers : ∀ v ∈ rows, v.userId ≠ w.userId → ∃ p ∈ rows, p.Primary ∧ p.userId = v.userId)
    {f : UserWallet → UserWallet} (hid : ∀ v, (f v).id = v.id)
    (haddress : ∀ v, ((f v).userId, (f v).walletAddress) = (v.userId, v.walletAddress))
    (haccount : ∀ v, (f v).cAddress = v.cAddress) (hprimary : ∀ v, (f v).Primary) :
    UniqueIndexes (Table.updateWhere (fun v => v.id = w.id) f rows) ∧
      SomePrimary (Table.updateWhere (fun v => v.id = w.id) f rows) := by
  have huser : ∀ v, (f v).userId = v.userId := fun v => (Prod.mk.inj (haddress v)).1
  have hunique : ∀ v ∈ rows, v.id = w.id → v = w := fun v hv heq =>
    List.inj_on_of_nodup_map h.id hv hw heq
  -- a row after the update is the wallet itself, or one that was there under another id
  have hcases : ∀ v ∈ Table.updateWhere (fun v => v.id = w.id) f rows,
      v = f w ∨ (v ∈ rows ∧ v.id ≠ w.id) := by
    refine Table.forall_mem_updateWhere (fun v hv hne => ?_) (fun v hv heq => ?_)
    · exact .inr ⟨hv, of_decide_eq_false hne⟩
    · rw [hunique v hv (of_decide_eq_true heq)]
      exact .inl rfl
  have hpromoted : f w ∈ Table.updateWhere (fun v => v.id = w.id) f rows :=
    Table.mem_updateWhere.mpr ⟨w, hw, by simp⟩
  have hnoOther : ∀ v ∈ rows, v.id ≠ w.id → v.Primary → v.userId ≠ (f w).userId := by
    intro v hv hne hvp heq
    exact hne (halone v hv (heq.trans (huser w)) hvp)
  constructor
  · refine h.updateWhere hid haddress haccount ?_
    intro u hu hup v hv hvp heq
    rcases hcases u hu with rfl | ⟨hu, huid⟩
    · rcases hcases v hv with rfl | ⟨hv, hvid⟩
      · rfl
      · exact absurd heq.symm (hnoOther v hv hvid hvp)
    · rcases hcases v hv with rfl | ⟨hv, hvid⟩
      · exact absurd heq (hnoOther u hu huid hup)
      · exact (oneAtMost_iff h.id).mpr h.isPrimary u hu hup v hv hvp heq
  · intro v hv
    by_cases hvuser : v.userId = w.userId
    · exact ⟨f w, hpromoted, hprimary w, (huser w).trans hvuser.symm⟩
    · rcases hcases v hv with rfl | ⟨hv, -⟩
      · exact absurd (huser w) hvuser
      · obtain ⟨p, hp, hpp, hpuser⟩ := hothers v hv hvuser
        have hpid : p.id ≠ w.id := by
          intro heq
          rw [hunique p hp heq] at hpuser
          exact hvuser hpuser.symm
        have hstays := Table.mem_updateWhere.mpr
          (⟨p, hp, rfl⟩ : ∃ old ∈ rows, (if decide (p.id = w.id) then f p else p) =
            if decide (old.id = w.id) then f old else old)
        rw [if_neg (by simpa using hpid)] at hstays
        exact ⟨p, hstays, hpp, hpuser⟩

end Queries

/-! ## The operations -/

section Operations

variable {db : WalletDb} {userId walletId : String} {now : Timestamp}

/-- The operation keeps the invariant. -/
abbrev KeepsPrimary {α : Type} (p : WalletProgram α) (db : WalletDb) : Prop :=
  Calls.LeadsTo Answers PrimaryInvariant p db

/-- The queries of a link after it has counted the wallets. -/
def linksAs (userId : String) (isPrimary : Bool) : WalletCall → Prop
  | .readAuthUser _ | .setWalletProvider _ _ => True
  | .insertWallet new => new.userId = userId ∧ new.isPrimary = isPrimary
  | _ => False

theorem assertPollarOwnership_links {isPrimary : Bool} {address pollarUserId : String} :
    Only (linksAs userId isPrimary) (assertPollarOwnership userId address pollarUserId) := by
  refine Calls.only_ask trivial fun x => ?_
  split
  · exact Calls.only_fail _
  · split
    · exact Calls.only_fail _
    · split
      · exact Calls.only_fail _
      · exact Calls.only_done _

theorem linkIdentity_links {env : WalletEnv} {dto : LinkWalletDto} {isPrimary : Bool} :
    Only (linksAs userId isPrimary) (linkIdentity env now userId dto) := by
  have hpollar : ∀ (pollarUserId : String) (identity : LinkIdentity),
      Only (linksAs userId isPrimary) (assertPollarOwnership userId dto.walletAddress pollarUserId >>=
        fun _ => .done identity) :=
    fun _ _ => assertPollarOwnership_links.bind fun _ => Calls.only_done _
  unfold linkIdentity
  split
  · unfold linkCustodial
    split_ifs
    · exact Calls.only_fail _
    · exact Calls.only_fail _
    · exact Calls.only_fail _
    · split
      · exact hpollar _ _
      · exact Calls.only_done _
  · unfold linkAccesly
    split_ifs
    · exact Calls.only_fail _
    · exact Calls.only_fail _
    · exact Calls.only_fail _
    · refine Calls.only_ask trivial fun x => ?_
      split
      · exact Calls.only_fail _
      · exact Calls.only_done _
  · split_ifs
    · unfold linkPollar
      split
      · exact Calls.only_fail _
      · exact hpollar _ _
    · exact Calls.only_ofExcept _

theorem insertLinked_links {row base : NewWallet} {isPrimary : Bool}
    (hrow : linksAs userId isPrimary (.insertWallet row))
    (hbase : linksAs userId isPrimary (.insertWallet base)) :
    Only (linksAs userId isPrimary) (insertLinked row base) := by
  have hlast : ∀ second : Reply UserWallet, Only (linksAs userId isPrimary)
      (if isMissingColumn second then ask (WalletCall.insertWallet base)
        else pure second : WalletProgram (Reply UserWallet)) := by
    intro second
    split_ifs
    · exact ⟨hbase, fun _ _ => trivial⟩
    · exact Calls.only_done _
  refine Calls.only_ask hrow fun first => ?_
  simp only
  split_ifs
  · exact Calls.only_ask hrow fun second => hlast second
  · exact hlast first

/-- What a link does after it has counted keeps the invariant: the row it inserts is primary if it is
the user's first. -/
theorem linksAs_keeps {isPrimary : Bool} {c : WalletCall} {db db' : WalletDb} {x : c.reply}
    (hc : linksAs userId isPrimary c) (hx : Answers c db x db')
    (h : PrimaryInvariant db ∧ (isPrimary = false → ∃ w ∈ db.wallets, w.userId = userId)) :
    PrimaryInvariant db' ∧ (isPrimary = false → ∃ w ∈ db'.wallets, w.userId = userId) := by
  cases c with
  | readAuthUser _ =>
      obtain ⟨-, rfl⟩ := hx
      exact h
  | setWalletProvider _ _ =>
      obtain ⟨-, rfl⟩ := hx
      exact ⟨⟨h.1.indexes, h.1.primary⟩, h.2⟩
  | insertWallet new =>
      obtain ⟨huser, hprimary⟩ := hc
      constructor
      · refine h.1.insert hx ?_
        cases isPrimary with
        | true => exact .inl hprimary
        | false =>
            rw [huser]
            exact .inr (h.2 rfl)
      · intro hno
        obtain ⟨w, hw, hwuser⟩ := h.2 hno
        rcases insertWallet_done hx with hsame | ⟨id, created, -, hadded⟩
        · exact ⟨w, hsame ▸ hw, hwuser⟩
        · exact ⟨w, hadded ▸ List.mem_append_left _ hw, hwuser⟩
  | _ => exact hc.elim

theorem linkWallet_keeps (h : PrimaryInvariant db) (env : WalletEnv) (dto : LinkWalletDto) :
    KeepsPrimary (linkWallet env now userId dto) db := by
  refine ⟨Calls.ensures_ask fun existing db₁ hx => ?_⟩
  obtain ⟨-, rfl⟩ := hx
  split
  · exact h
  · refine Calls.ensures_ask fun count db₂ hcount => ?_
    obtain ⟨rfl, rfl⟩ := hcount
    have hfirst : decide ((db₂.walletsOf userId).length = 0) = false →
        ∃ w ∈ db₂.wallets, w.userId = userId := by
      intro hcounted
      obtain ⟨w, hw⟩ := List.exists_mem_of_length_pos
        (Nat.pos_of_ne_zero (of_decide_eq_false hcounted))
      obtain ⟨hw, huser⟩ := List.mem_filter.mp hw
      exact ⟨w, hw, of_decide_eq_true huser⟩
    have hrow : ∀ identity, linksAs userId (decide ((db₂.walletsOf userId).length = 0))
        (.insertWallet (identityRow userId dto (decide ((db₂.walletsOf userId).length = 0)) identity)) :=
      fun _ => ⟨rfl, rfl⟩
    have hbase : ∀ identity, linksAs userId (decide ((db₂.walletsOf userId).length = 0))
        (.insertWallet (baseRow userId dto (decide ((db₂.walletsOf userId).length = 0)) identity)) :=
      fun _ => ⟨rfl, rfl⟩
    refine Only.ensures ?_ (fun c s x s' hc hI hx => linksAs_keeps hc hx hI) ⟨h, hfirst⟩
      fun _ _ hI => hI.1
    refine linkIdentity_links.bind fun identity => ?_
    refine (insertLinked_links (hrow identity) (hbase identity)).bind fun reply => ?_
    split
    · split
      · exact Calls.only_fail _
      · exact Calls.only_done _
    · split
      · exact Calls.only_done _
      · exact Calls.only_ask trivial fun _ => Calls.only_done _

/-- An update of one row that keeps its user and unsets no primary row. -/
theorem PrimaryInvariant.updateOne (h : PrimaryInvariant db) {f : UserWallet → UserWallet}
    (huser : ∀ w, (f w).userId = w.userId)
    (hkeeps : ∀ w ∈ db.wallets, w.id = walletId → w.Primary → (f w).Primary) :
    PrimaryInvariant (db.updateOne walletId f).2 := by
  rcases updateOne_done db walletId f with hsame | ⟨hunique, hwritten⟩
  · rw [hsame]
    exact h
  · refine ⟨hwritten ▸ hunique, ?_⟩
    rw [hwritten]
    exact h.primary.updateWhere huser fun w hw hid => hkeeps w hw (of_decide_eq_true hid)

theorem verifyWallet_keeps (h : PrimaryInvariant db) (env : WalletEnv) (dto : VerifyWalletDto) :
    KeepsPrimary (verifyWallet env now userId walletId dto) db := by
  refine ⟨Calls.ensures_ask fun x db₁ hx => ?_⟩
  obtain ⟨-, rfl⟩ := hx
  split
  · exact h
  · split
    · exact h
    · split
      · exact h
      · refine Calls.ensures_bind.mpr (Calls.ensures_ofExcept.mpr ⟨fun _ _ => ?_, fun _ _ => h⟩)
        refine Calls.ensures_ask fun y db₂ hy => ?_
        have hafter : db₂ = (db₁.updateOne walletId (UserWallet.markVerified now)).2 :=
          (Prod.mk.inj hy).2
        rw [hafter]
        exact h.updateOne (fun _ => rfl) fun _ _ _ hprimary => hprimary

/-- `clearOtherPrimaries` leaves no other primary wallet of the user, and then the wallet becomes
primary. -/
theorem makePrimary_keeps (h : PrimaryInvariant db) {w : UserWallet} (hw : w ∈ db.wallets)
    {updates : WalletUpdates} (hupdates : updates.isPrimary = some (some true)) {db₁ : WalletDb}
    (hclear : Answers (.clearOtherPrimaries w.userId w.id now) db (.ok ()) db₁) :
    PrimaryInvariant (db₁.updateOne w.id (UserWallet.apply updates)).2 := by
  obtain ⟨-, rfl⟩ := hclear
  -- the rows after the first update: the user's other wallets are not primary any more
  have hcleared : UniqueIndexes (Table.updateWhere (fun v => v.userId = w.userId ∧ v.id ≠ w.id)
      (fun v => { v with isPrimary := some false, updatedAt := now }) db.wallets) := by
    refine h.indexes.updateWhere (fun _ => rfl) (fun _ => rfl) (fun _ => rfl) ?_
    exact h.one.updateWhere (fun _ => rfl) fun _ _ _ hno => by cases hno
  have hstays : ∀ v ∈ db.wallets, decide (v.userId = w.userId ∧ v.id ≠ w.id) = false →
      v ∈ Table.updateWhere (fun v => v.userId = w.userId ∧ v.id ≠ w.id)
        (fun v => { v with isPrimary := some false, updatedAt := now }) db.wallets := by
    intro v hv hout
    exact Table.mem_updateWhere.mpr ⟨v, hv, by rw [hout, if_neg Bool.false_ne_true]⟩
  have hmem := hstays w hw (by simp)
  have halone : ∀ v ∈ Table.updateWhere (fun v => v.userId = w.userId ∧ v.id ≠ w.id)
      (fun v => { v with isPrimary := some false, updatedAt := now }) db.wallets,
      v.userId = w.userId → v.Primary → v.id = w.id := by
    refine Table.forall_mem_updateWhere (fun v _ hout huser _ => ?_) (fun v _ _ _ hno => by cases hno)
    by_contra hne
    exact of_decide_eq_false hout ⟨huser, hne⟩
  have hothers : ∀ v ∈ Table.updateWhere (fun v => v.userId = w.userId ∧ v.id ≠ w.id)
      (fun v => { v with isPrimary := some false, updatedAt := now }) db.wallets,
      v.userId ≠ w.userId → ∃ p ∈ Table.updateWhere (fun v => v.userId = w.userId ∧ v.id ≠ w.id)
        (fun v => { v with isPrimary := some false, updatedAt := now }) db.wallets,
        p.Primary ∧ p.userId = v.userId := by
    refine Table.forall_mem_updateWhere (fun v hv _ hne => ?_) (fun v _ hin hne => ?_)
    · obtain ⟨p, hp, hprimary, hpuser⟩ := h.primary v hv
      refine ⟨p, hstays p hp (decide_eq_false fun hboth => ?_), hprimary, hpuser⟩
      exact hne (hpuser.symm.trans hboth.1)
    · exact absurd (of_decide_eq_true hin).1 hne
  obtain ⟨hunique, hsome⟩ := promote hcleared hmem halone hothers
    (f := UserWallet.apply updates) (fun _ => rfl) (fun _ => rfl) (fun _ => rfl)
    fun v => by simp [UserWallet.apply, UserWallet.Primary, hupdates]
  have hwritten : ((db.updateWallets (fun v => v.userId = w.userId ∧ v.id ≠ w.id)
      fun v => { v with isPrimary := some false, updatedAt := now }).updateOne w.id
        (UserWallet.apply updates)).2.wallets = _ :=
    updateOne_written hmem rfl (fun _ => rfl) hunique
  exact ⟨hwritten ▸ hunique, hwritten ▸ hsome⟩

/-- An update that sets `is_primary`, leaves it alone, or unsets it on a wallet that is not primary. -/
theorem updateWallet_keeps (h : PrimaryInvariant db) {dto : UpdateWalletDto}
    (hdto : dto.keeps = true ∨
      ∀ w ∈ db.walletsOf userId, w.id = walletId → w.isPrimary ≠ some true) :
    KeepsPrimary (updateWallet now userId walletId dto) db := by
  refine ⟨Calls.ensures_ask fun x db₁ hx => ?_⟩
  obtain ⟨rfl, hfound⟩ := getWallet_found hx
  split
  · exact h
  · rename_i w hdata
    obtain ⟨hw, rfl, rfl⟩ := hfound w hdata
    split
    · rename_i hset
      refine Calls.ensures_ask fun y db₂ hy => Calls.ensures_ask fun z db₃ hz => ?_
      obtain rfl : y = .ok () := hy.1
      have hafter : db₃ = (db₂.updateOne w.id (UserWallet.apply ⟨dto.label, dto.isPrimary, now⟩)).2 :=
        (Prod.mk.inj hz).2
      exact hafter ▸ makePrimary_keeps h hw hset hy
    · rename_i hunset
      refine Calls.ensures_ask fun z db₂ hz => ?_
      have hafter : db₂ = (db₁.updateOne w.id (UserWallet.apply ⟨dto.label, dto.isPrimary, now⟩)).2 :=
        (Prod.mk.inj hz).2
      rw [hafter]
      refine h.updateOne (fun _ => rfl) fun v hv hid hprimary => ?_
      rcases hdto with hkeeps | hsecondary
      · have hnone : dto.isPrimary = none := by
          simpa [UpdateWalletDto.keeps, hunset] using hkeeps
        simpa [UserWallet.apply, hnone] using hprimary
      · obtain rfl := List.inj_on_of_nodup_map h.indexes.id hv hw hid
        exact absurd hprimary (hsecondary v (List.mem_filter.mpr ⟨hv, by simp⟩) rfl)

/-- The wallets without one of them. -/
def WalletDb.without (db : WalletDb) (w : UserWallet) : WalletDb :=
  { db with wallets := db.wallets.filter fun v => ¬ (v.id = w.id ∧ v.userId = w.userId) }

theorem mem_without {w v : UserWallet} : v ∈ (db.without w).wallets ↔
    v ∈ db.wallets ∧ ¬ (v.id = w.id ∧ v.userId = w.userId) := by
  rw [WalletDb.without, List.mem_filter, decide_eq_true_eq]

/-- A wallet that was not primary is no loss. -/
theorem PrimaryInvariant.without (h : PrimaryInvariant db) {w : UserWallet} (hno : ¬ w.Primary)
    (hw : w ∈ db.wallets) : PrimaryInvariant (db.without w) := by
  refine ⟨h.indexes.filter _, fun v hv => ?_⟩
  obtain ⟨p, hp, hprimary, huser⟩ := h.primary v (mem_without.mp hv).1
  refine ⟨p, mem_without.mpr ⟨hp, fun hsame => hno ?_⟩, hprimary, huser⟩
  rw [← List.inj_on_of_nodup_map h.indexes.id hp hw hsame.1]
  exact hprimary

/-- Without the primary wallet, the other users still have theirs and the user has none. -/
theorem PrimaryInvariant.without_primary (h : PrimaryInvariant db) {w : UserWallet} (hw : w ∈ db.wallets)
    (hprimary : w.Primary) :
    (∀ v ∈ (db.without w).wallets, v.userId ≠ w.userId →
      ∃ p ∈ (db.without w).wallets, p.Primary ∧ p.userId = v.userId) ∧
    ∀ v ∈ (db.without w).wallets, v.userId = w.userId → ¬ v.Primary := by
  constructor
  · intro v hv hne
    obtain ⟨p, hp, hpp, huser⟩ := h.primary v (mem_without.mp hv).1
    exact ⟨p, mem_without.mpr ⟨hp, fun hsame => hne (huser.symm.trans hsame.2)⟩, hpp, huser⟩
  · intro v hv huser hvp
    obtain ⟨hv, hother⟩ := mem_without.mp hv
    rw [h.one v hv hvp w hw hprimary huser] at hother
    exact hother ⟨rfl, rfl⟩

/-- The wallet that is promoted after the primary one has gone. -/
theorem promoteRemaining_keeps (h : PrimaryInvariant db) {w : UserWallet} (hw : w ∈ db.wallets)
    (hprimary : w.Primary) {v : UserWallet} (hv : v ∈ (db.without w).wallets)
    (hvuser : v.userId = w.userId) {x : Reply Unit} {db' : WalletDb}
    (hx : Answers (.setPrimary v.id) (db.without w) x db') : PrimaryInvariant db' := by
  obtain ⟨hothers, hnone⟩ := h.without_primary hw hprimary
  obtain ⟨hunique, hsome⟩ := promote (h.indexes.filter _) hv
    (fun u hu huser hup => absurd hup (hnone u hu (huser.trans hvuser)))
    (fun u hu hne => hothers u hu fun huser => hne (huser.trans hvuser.symm))
    (f := fun u => { u with isPrimary := some true })
    (fun _ => rfl) (fun _ => rfl) (fun _ => rfl) fun _ => rfl
  simp only [Answers] at hx
  split at hx
  · rw [hx.2]
    exact ⟨hunique, hsome⟩
  · rename_i hno
    exact absurd hunique hno

theorem unlinkWallet_keeps (h : PrimaryInvariant db) :
    KeepsPrimary (unlinkWallet userId walletId) db := by
  refine ⟨Calls.ensures_ask fun x db₁ hx => ?_⟩
  obtain ⟨rfl, hfound⟩ := getWallet_found hx
  split
  · exact h
  · rename_i w hdata
    obtain ⟨hw, rfl, rfl⟩ := hfound w hdata
    split
    · exact h
    · refine Calls.ensures_ask fun y db₂ hy => ?_
      obtain ⟨rfl, rfl⟩ := hy
      change Ensures Answers _ (db₁.without w) _
      simp only
      split
      · rename_i hprimary
        obtain ⟨hothers, -⟩ := h.without_primary hw hprimary
        refine Calls.ensures_ask fun z db₃ hz => ?_
        obtain ⟨hz, rfl⟩ := hz
        split at hz
        · -- the user has no wallet left
          rename_i hempty
          subst hz
          refine ⟨h.indexes.filter _, fun v hv => hothers v hv fun huser => ?_⟩
          have hleft : v ∈ (db₁.without w).walletsOf w.userId :=
            List.mem_filter.mpr ⟨hv, decide_eq_true huser⟩
          rw [hempty] at hleft
          cases hleft
        · -- one of those left takes its place
          rename_i u us hleft
          obtain ⟨v, hv, rfl⟩ := hz
          rw [← hleft, WalletDb.walletsOf, List.mem_filter, decide_eq_true_eq] at hv
          refine Calls.ensures_ask fun y db₄ hy => ?_
          exact promoteRemaining_keeps h hw hprimary hv.1 hv.2 hy
      · rename_i hno
        exact h.without hno hw

end Operations

/-! ## The result -/

/-- **Step lemma.** A request that unsets no primary wallet keeps the invariant. -/
theorem request_keeps (env : WalletEnv) {db : WalletDb} (h : PrimaryInvariant db) {req : WalletRequest}
    (hreq : keepsPrimary db req = true) : KeepsPrimary (req.program env) db := by
  obtain ⟨userId, now, op⟩ := req
  cases op with
  | link dto => exact (linkWallet_keeps h env dto).wrapped _
  | verify walletId dto => exact (verifyWallet_keeps h env dto).wrapped _
  | update walletId dto =>
      refine (updateWallet_keeps h ?_).wrapped _
      simpa [keepsPrimary] using hreq
  | unlink walletId => exact (unlinkWallet_keeps h).wrapped _

/-- **One primary wallet.** In the runs in which no update unsets a primary wallet, every user with a
wallet has exactly one primary wallet after every operation. -/
theorem one_primary (env : WalletEnv) {db : WalletDb}
    (h : ((walletRuns env).restrict fun db req => keepsPrimary db req = true).Reachable db) :
    OnePrimary db := by
  have hinvariant : PrimaryInvariant db := by
    apply StepSystem.invariant_of_steps (I := PrimaryInvariant) _ _ h
    · intro db hinit
      have hnone : db.wallets = [] := hinit
      refine ⟨?_, ?_⟩
      · rw [hnone]
        decide
      · rw [hnone]
        intro w hw
        cases hw
    · intro db req db' _ hI hstep
      obtain ⟨hreq, out, hrun⟩ := hstep
      exact (request_keeps env hI hreq).of_runs hrun
  exact onePrimary_of hinvariant.indexes hinvariant.primary

/-- A request on the answering database. -/
def WalletRequest.run (env : WalletEnv) (req : WalletRequest) (db : WalletDb) :
    Except HttpException WalletAnswer × WalletDb :=
  Calls.run (fun c db => db.answer c) (req.program env) db

theorem WalletRequest.step (env : WalletEnv) (req : WalletRequest) (db : WalletDb) :
    (walletRuns env).step db req (req.run env db).2 :=
  ⟨_, Calls.runs_run (fun c db => db.answers_answer c) (req.program env) db⟩

/-- Tables without wallets and without users. -/
def noWallets : WalletDb where
  wallets := []
  authUsers := fun _ => none
  columns := ⟨true, true, true⟩

/-- The tables after `bareLink`, with one wallet under the id `i`. -/
def oneLinked : WalletDb := (bareRequest.run plainEnv noWallets).2

theorem one_primary_linked : OnePrimary oneLinked := by
  apply one_primary plainEnv
  have hinit : (walletRuns plainEnv).init noWallets := rfl
  exact .step (.init hinit) ⟨rfl, bareRequest.step plainEnv noWallets⟩

/-- The only wallet is unset by an update: its user has no primary wallet. -/
theorem not_one_primary :
    ¬ ∀ env db, (walletRuns env).Reachable db → OnePrimary db := by
  intro h
  let unset : WalletRequest := ⟨bareRequest.userId, 1, .update "i" ⟨none, some (some false)⟩⟩
  have hinit : (walletRuns plainEnv).init noWallets := rfl
  have hlinked : (walletRuns plainEnv).Reachable oneLinked :=
    .step (.init hinit) (bareRequest.step plainEnv noWallets)
  have hone := h plainEnv _ (hlinked.step (unset.step plainEnv oneLinked)) bareRequest.userId
    (by decide +kernel)
  have hnone : (((unset.run plainEnv oneLinked).2.walletsOf bareRequest.userId).filter fun w =>
      w.isPrimary = some true).length = 0 := by decide +kernel
  omega

end ThalosBackend.Wallets
