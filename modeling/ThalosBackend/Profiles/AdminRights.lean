import ThalosBackend.Agreements.AnsweredQueries
import ThalosBackend.Library.StepSystem
import ThalosBackend.Profiles.ProfilesService
import ThalosBackend.Wallets.BindingSafety

/-!
# Who gets admin rights

The requests that write profiles and the requests of the wallet module, one after the other; any query
may fail. A role is written by `setUserRole` alone, after it has found the caller's own profile, through
`auth_users.wallet_public_key`, with the role `admin`. A created profile has the role `user`, and an
update spreads fields of its body that are no role.
-/

set_option autoImplicit false

namespace ThalosBackend.Profiles

open Js (Timestamp nonEmpty)
open Calls (ask Ensures)
open Wallets (Reply WalletEnv WalletRequest)

/-! ## Runs -/

/-- What is asked of the profile endpoints that write, and of the wallet endpoints. -/
inductive ProfileRequest where
  | getOrCreate (userId : String) (dto : GetOrCreateProfileDto)
  | update (now : Timestamp) (userId walletAddress : String) (dto : UpdateProfileDto)
  | updateForUser (now : Timestamp) (userId : String) (dto : UpdateProfileDto)
  | setUserRole (now : Timestamp) (userId : String) (dto : SetUserRoleDto)
  | wallet (request : WalletRequest)

/-- What a request is answered with. -/
inductive ProfileAnswer where
  | profile (result : ProfileResult)
  | role (result : RoleResult)
  | wallet (result : Wallets.WalletAnswer)

/-- The operation behind a request. -/
def ProfileRequest.program (env : WalletEnv) : ProfileRequest → ProfileProgram ProfileAnswer
  | .getOrCreate userId dto => do return .profile (← Profiles.getOrCreate userId dto)
  | .update now userId walletAddress dto => do
    return .profile (← Profiles.update now userId walletAddress dto)
  | .updateForUser now userId dto => do return .profile (← Profiles.updateForUser now userId dto)
  | .setUserRole now userId dto => do return .role (← Profiles.setUserRole now userId dto)
  | .wallet request => do
    return .wallet (← (request.program env).embed ProfileCall.wallet fun _ x => x)

/-- The requests of any users, one after the other. The profiles have their own ids at the beginning;
what else is stored is open. -/
def profileSystem (directory : Directory) (env : WalletEnv) : StepSystem ProfileDb ProfileRequest where
  init db := Table.Unique ProfileRow.id db.profiles
  step db req db' := ∃ out, Calls.Runs (Executes directory) (req.program env) db out db'

/-! ## Admins -/

/-- The profile of a user, found through `auth_users.wallet_public_key`. -/
def ProfileDb.profileOf (db : ProfileDb) (userId : String) : Option ProfileRow :=
  (nonEmpty (db.wallet.publicKey userId)).bind fun wallet => Table.sole (db.byWallet wallet)

/-- The user is an admin. -/
def isAdmin (db : ProfileDb) (userId : String) : Bool :=
  (db.profileOf userId).any fun p => p.role = .admin

/-- Nobody has the role `admin`. -/
def NoAdmin (db : ProfileDb) : Prop :=
  ∀ p ∈ db.profiles, p.role ≠ .admin

theorem NoAdmin.not_isAdmin {db : ProfileDb} (h : NoAdmin db) (userId : String) :
    isAdmin db userId = false := by
  rw [isAdmin, Option.any_eq_false]
  intro p hp
  obtain ⟨wallet, -, hsole⟩ := Option.bind_eq_some_iff.mp hp
  have hmem : p ∈ db.byWallet wallet := Table.sole_eq_some.mp hsole ▸ List.mem_singleton_self p
  simpa using h p (List.mem_filter.mp hmem).1

/-! ## What a request does to the profiles -/

/-- The profiles after a request: as they were, with a new one of role `user`, with one rewritten by
its body, or with roles set by an admin. -/
inductive ProfilesStep (db : ProfileDb) (req : ProfileRequest) : List ProfileRow → Prop where
  | same : ProfilesStep db req db.profiles
  | created (dto : GetOrCreateProfileDto) (id : String) (created : Timestamp) :
      (∀ p ∈ db.profiles, p.id ≠ id) → ProfilesStep db req (db.profiles ++ [dto.row.row id created])
  | updated (walletAddress : String) (now : Timestamp) (dto : UpdateProfileDto) :
      ProfilesStep db req (db.updateByWallet walletAddress (ProfileRow.apply now dto)).profiles
  | roleSet (now : Timestamp) (userId : String) (dto : SetUserRoleDto) :
      req = .setUserRole now userId dto → isAdmin db userId = true →
      ProfilesStep db req (db.updateByWallet dto.walletAddress (ProfileRow.setRole now dto.role)).profiles

section Steps

variable {directory : Directory} {db db' : ProfileDb} {userId : String} {now : Timestamp}

/-- Every run of the program leaves the profiles as the request may leave them. -/
abbrev Steps {α : Type} (directory : Directory) (req : ProfileRequest) (p : ProfileProgram α)
    (db : ProfileDb) : Prop :=
  Calls.LeadsTo (Executes directory) (fun db' => ProfilesStep db req db'.profiles) p db

/-- The user's wallet, if the query is answered. -/
theorem walletForUserId_ends : Ensures (Executes directory) (walletForUserId userId) db
    fun out db' => db' = db ∧ ∃ wallet, out = .ok wallet ∧
      ∀ w, wallet = some w → nonEmpty (db.wallet.publicKey userId) = some w := by
  refine Calls.ensures_ask fun x db₁ hx => ?_
  rcases hx with ⟨wallet, ⟨rfl, rfl⟩, rfl⟩ | ⟨⟨e, rfl⟩, rfl⟩
  · exact ⟨rfl, _, rfl, fun w hw => hw⟩
  · exact ⟨rfl, _, rfl, fun w hw => by cases hw⟩

theorem assertActorWallet_ends {actorWallet : String} :
    Ensures (Executes directory) (assertActorWallet userId actorWallet) db fun _ db' => db' = db := by
  refine Calls.ensures_bind.mpr (walletForUserId_ends.mono ?_)
  rintro out db₁ ⟨rfl, wallet, rfl, -⟩
  refine ⟨fun w _ => ?_, fun e _ => rfl⟩
  split
  · rfl
  · rfl

theorem createProfile_steps {req : ProfileRequest} {dto : GetOrCreateProfileDto} :
    Steps directory req (createProfile dto) db := by
  refine ⟨Calls.ensures_ask fun x db₁ hx => ?_⟩
  rcases hx with ⟨id, created, hfresh, rfl, rfl⟩ | ⟨⟨e, rfl⟩, rfl⟩
  · exact .created dto id created hfresh
  · exact .same

theorem getOrCreate_steps {req : ProfileRequest} {dto : GetOrCreateProfileDto} :
    Steps directory req (getOrCreate userId dto) db := by
  refine ⟨Calls.ensures_bind.mpr (assertActorWallet_ends.mono ?_)⟩
  rintro out db₁ rfl
  refine ⟨fun _ _ => Calls.ensures_ask fun x db₂ hx => ?_, fun e _ => .same⟩
  have hread : db₂ = db₁ := by
    rcases hx with ⟨-, rfl⟩ | ⟨-, rfl⟩
    · rfl
    · rfl
  subst hread
  split
  · exact .same
  · exact createProfile_steps.ensures
  · split
    · exact .same
    · exact createProfile_steps.ensures

/-- An update writes one profile, or none. -/
theorem applyUpdate_steps {req : ProfileRequest} {walletAddress : String} {dto : UpdateProfileDto} :
    Steps directory req (applyUpdate now walletAddress dto) db := by
  refine ⟨Calls.ensures_ask fun x db₁ hx => ?_⟩
  have hstep : ProfilesStep db req db₁.profiles := by
    rcases hx with hx | ⟨-, rfl⟩
    · simp only [Answers] at hx
      split at hx
      · split at hx
        · rw [hx.2]
          exact .updated walletAddress now dto
        · rw [hx.2]
          exact .same
      · rw [hx.2]
        exact .same
    · exact .same
  split
  · split
    · exact hstep
    · exact hstep
  · exact hstep

theorem update_steps {req : ProfileRequest} {walletAddress : String} {dto : UpdateProfileDto} :
    Steps directory req (update now userId walletAddress dto) db := by
  refine ⟨Calls.ensures_bind.mpr (assertActorWallet_ends.mono ?_)⟩
  rintro out db₁ rfl
  exact ⟨fun _ _ => applyUpdate_steps.ensures, fun e _ => .same⟩

theorem updateForUser_steps {req : ProfileRequest} {dto : UpdateProfileDto} :
    Steps directory req (updateForUser now userId dto) db := by
  refine ⟨Calls.ensures_bind.mpr (walletForUserId_ends.mono ?_)⟩
  rintro out db₁ ⟨rfl, wallet, rfl, -⟩
  refine ⟨fun w _ => ?_, fun e _ => .same⟩
  split
  · exact .same
  · exact applyUpdate_steps.ensures

/-- A role is set after the caller's profile was found to be an admin's. -/
theorem setUserRole_steps {dto : SetUserRoleDto} :
    Steps directory (.setUserRole now userId dto) (setUserRole now userId dto) db := by
  refine ⟨Calls.ensures_bind.mpr (walletForUserId_ends.mono ?_)⟩
  rintro out db₁ ⟨rfl, wallet, rfl, hwallet⟩
  refine ⟨fun w hw => ?_, fun e _ => .same⟩
  cases hw
  split
  · exact .same
  · rename_i currentWallet
    refine Calls.ensures_ask fun x db₂ hx => ?_
    have hfound : db₂ = db₁ ∧ ∀ p, Reply.data x = some p →
        Table.sole (db₁.byWallet currentWallet) = some p := by
      rcases hx with ⟨rfl, rfl⟩ | ⟨⟨e, rfl⟩, rfl⟩
      · exact ⟨rfl, fun p hp => (Agreements.data_maybeSingle _).symm.trans hp⟩
      · exact ⟨rfl, fun p hp => by cases hp⟩
    obtain ⟨rfl, hfound⟩ := hfound
    dsimp only
    split
    · exact .same
    · rename_i hrole
      rw [ne_eq, not_not, Option.map_eq_some_iff] at hrole
      obtain ⟨p, hp, hadmin⟩ := hrole
      have hprofile : db₂.profileOf userId = some p := by
        rw [ProfileDb.profileOf, hwallet currentWallet rfl]
        exact hfound p hp
      have hcaller : isAdmin db₂ userId = true := by
        rw [isAdmin, hprofile, Option.any_some, hadmin]
        rfl
      refine Calls.ensures_ask fun y db₃ hy => ?_
      rcases hy with ⟨rfl, rfl⟩ | ⟨⟨e, rfl⟩, rfl⟩
      · exact .roleSet now userId dto rfl hcaller
      · exact .same

/-- The wallet module leaves the profiles alone. -/
theorem wallet_profiles {α : Type} (p : Wallets.WalletProgram α) :
    Ensures (Executes directory) (p.embed ProfileCall.wallet fun _ x => x) db
      fun _ db' => db'.profiles = db.profiles := by
  have honly : Calls.Only (fun c => ∃ w, c = ProfileCall.wallet w)
      (p.embed ProfileCall.wallet fun _ x => x : ProfileProgram α) :=
    Calls.only_embed (fun c => ⟨c, rfl⟩) p
  refine honly.ensures (I := fun db' => db'.profiles = db.profiles) ?_ rfl fun _ _ h => h
  rintro _ db₁ x db₂ ⟨w, rfl⟩ hsame hx
  rcases hx with ⟨wallet, -, rfl⟩ | ⟨-, rfl⟩
  · exact hsame
  · exact hsame

/-- **Step lemma.** What a request leaves. -/
theorem request_steps (env : WalletEnv) (req : ProfileRequest) :
    Steps directory req (req.program env) db := by
  cases req with
  | getOrCreate userId dto => exact getOrCreate_steps.wrapped _
  | update now userId walletAddress dto => exact update_steps.wrapped _
  | updateForUser now userId dto => exact updateForUser_steps.wrapped _
  | setUserRole now userId dto => exact setUserRole_steps.wrapped _
  | wallet request =>
      have hsame : Steps directory (.wallet request)
          ((request.program env).embed ProfileCall.wallet fun _ x => x) db := by
        refine ⟨(wallet_profiles _).mono fun out db' hprofiles => ?_⟩
        rw [hprofiles]
        exact .same
      exact hsame.wrapped _

end Steps

/-! ## Runs -/

section Runs

variable {directory : Directory} {env : WalletEnv} {db db' : ProfileDb} {req : ProfileRequest}

theorem step_profiles (h : (profileSystem directory env).step db req db') :
    ProfilesStep db req db'.profiles := by
  obtain ⟨out, hrun⟩ := h
  exact (request_steps env req).of_runs hrun

/-- A profile after the request has the id and the role it had, or it is a new user's, or an admin has
set its role. -/
theorem ProfilesStep.cases {rows : List ProfileRow} (h : ProfilesStep db req rows) :
    ∀ p' ∈ rows, (∃ p ∈ db.profiles, p'.id = p.id ∧ p'.role = p.role) ∨
      (p'.role = .user ∧ ∀ p ∈ db.profiles, p.id ≠ p'.id) ∨
      ∃ p ∈ db.profiles, p'.id = p.id ∧ ∃ now userId dto,
        req = .setUserRole now userId dto ∧ isAdmin db userId = true := by
  have hkept : ∀ p ∈ db.profiles, ∃ q ∈ db.profiles, p.id = q.id ∧ p.role = q.role :=
    fun p hp => ⟨p, hp, rfl, rfl⟩
  cases h with
  | same => exact fun p hp => .inl (hkept p hp)
  | created dto id created hfresh =>
      intro p' hp'
      rcases List.mem_append.mp hp' with hold | hnew
      · exact .inl (hkept p' hold)
      · rw [List.mem_singleton.mp hnew]
        exact .inr (.inl ⟨rfl, hfresh⟩)
  | updated walletAddress now dto =>
      refine Table.forall_mem_updateWhere (fun p hp _ => .inl (hkept p hp)) fun p hp _ => ?_
      exact .inl ⟨p, hp, rfl, rfl⟩
  | roleSet now userId dto hreq hadmin =>
      refine Table.forall_mem_updateWhere (fun p hp _ => .inl (hkept p hp)) fun p hp _ => ?_
      exact .inr (.inr ⟨p, hp, rfl, now, userId, dto, hreq, hadmin⟩)

theorem ProfilesStep.unique {rows : List ProfileRow} (h : ProfilesStep db req rows)
    (hunique : Table.Unique ProfileRow.id db.profiles) : Table.Unique ProfileRow.id rows := by
  cases h with
  | same => exact hunique
  | created dto id created hfresh => exact hunique.concat hfresh
  | updated walletAddress now dto => exact hunique.updateWhere fun _ _ => rfl
  | roleSet now userId dto hreq hadmin => exact hunique.updateWhere fun _ _ => rfl

theorem unique_of_reachable (h : (profileSystem directory env).Reachable db) :
    Table.Unique ProfileRow.id db.profiles :=
  StepSystem.invariant_of_steps (I := fun db : ProfileDb => Table.Unique ProfileRow.id db.profiles)
    (fun _ hinit => hinit) (fun _ _ _ _ hI hstep => (step_profiles hstep).unique hI) h

/-- No request makes the first admin. -/
theorem NoAdmin.step (h : NoAdmin db) (hstep : (profileSystem directory env).step db req db') :
    NoAdmin db' := by
  intro p' hp'
  rcases (step_profiles hstep).cases p' hp' with ⟨p, hp, -, hrole⟩ | ⟨huser, -⟩ |
    ⟨p, -, -, now, userId, dto, -, hadmin⟩
  · rw [hrole]
    exact h p hp
  · rw [huser]
    intro hno
    cases hno
  · rw [h.not_isAdmin userId] at hadmin
    cases hadmin

/-- Admin rights are given by admins: what a request can do to the roles of a store, and what no run
from it can do. -/
structure GivenByAdmins (M : StepSystem ProfileDb ProfileRequest) (db : ProfileDb) : Prop where
  changed : ∀ req db', M.step db req db' → ∀ p ∈ db.profiles, ∀ p' ∈ db'.profiles, p'.id = p.id →
    p'.role ≠ p.role → ∃ now userId dto,
      req = .setUserRole now userId dto ∧ isAdmin db userId = true
  created : ∀ req db', M.step db req db' → ∀ p' ∈ db'.profiles,
    (∀ p ∈ db.profiles, p.id ≠ p'.id) → p'.role = .user
  noneFirst : NoAdmin db → ∀ db', M.Leads db db' → NoAdmin db'

/-- **Admin rights.** In every state of every run, a role changes only by a `setUserRole` of an admin,
a new profile is a user's, and where there is no admin none will be. -/
theorem admin_rights (h : (profileSystem directory env).Reachable db) :
    GivenByAdmins (profileSystem directory env) db where
  changed req db' hstep p hp p' hp' hid hrole := by
    rcases (step_profiles hstep).cases p' hp' with ⟨q, hq, hqid, hqrole⟩ | ⟨-, hfresh⟩ |
      ⟨q, -, -, now, userId, dto, hreq, hadmin⟩
    · -- the row with this id is the row itself
      rw [(unique_of_reachable h).eq hq hp (hqid.symm.trans hid)] at hqrole
      exact absurd hqrole hrole
    · exact absurd hid.symm (hfresh p hp)
    · exact ⟨now, userId, dto, hreq, hadmin⟩
  created req db' hstep p' hp' hnew := by
    rcases (step_profiles hstep).cases p' hp' with ⟨q, hq, hqid, -⟩ | ⟨huser, -⟩ | ⟨q, hq, hqid, -⟩
    · exact absurd hqid.symm (hnew q hq)
    · exact huser
    · exact absurd hqid.symm (hnew q hq)
  noneFirst hnone db' hrun := by
    refine hrun.keeps (I := NoAdmin) ?_ hnone
    intro db req db' hI hstep
    exact hI.step hstep

/-- Every search and every range is accepted, and no text matches. -/
def plainDirectory : Directory where
  matchesSearch _ _ _ := false
  searchError _ := none
  rangeError _ _ := none

/-- Two profiles, of which `payer`'s is an admin's. -/
def adminStore : ProfileDb where
  wallet := Agreements.newStore.wallet
  profiles := [{ (GetOrCreateProfileDto.mk "P" none).row.row "p" 0 with role := .admin },
    (GetOrCreateProfileDto.mk "Q" none).row.row "q" 0]

theorem admin_rights_store :
    GivenByAdmins (profileSystem plainDirectory Wallets.plainEnv) adminStore := by
  have hids : Table.Unique ProfileRow.id adminStore.profiles := by
    rw [Table.Unique]
    decide
  exact admin_rights (.init hids)

/-- `payer` is the admin there, and `payee` is none. -/
example : isAdmin adminStore "payer" = true ∧ isAdmin adminStore "payee" = false := by decide +kernel

end Runs

end ThalosBackend.Profiles
