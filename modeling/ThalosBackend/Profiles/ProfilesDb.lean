import ThalosBackend.Agreements.AnsweringDb
import ThalosBackend.Js.Text

/-!
# The profile table

The rows of `profiles` with the constraints of its migrations, the columns that are public, and the
queries of the profile service. No migration makes `wallet_address` unique, so a search by wallet may
find several rows. How PostgREST matches a text search, and which ranges it refuses, is open:
`Directory`.

`ProfileDb.answer` is one database that meets `Answers`, as a function.
-/

set_option autoImplicit false

namespace ThalosBackend.Profiles

open Js (Number Timestamp Value)
open Wallets (DbError Reply WalletCall WalletDb maybeSingle noRows duplicateKey)

/-! ## Rows -/

inductive ProfileRole where
  | user
  | validator
  | disputeResolver
  | admin
  deriving DecidableEq

inductive AccountType where
  | personal
  | enterprise
  deriving DecidableEq

inductive Availability where
  | available
  /-- `open`. -/
  | opened
  | unavailable
  deriving DecidableEq

/-- A row of `profiles`. -/
structure ProfileRow where
  id : String
  walletAddress : String
  displayName : Option String
  email : Option String
  avatarUrl : Option String
  accountType : Option AccountType
  role : ProfileRole
  showEarnings : Bool
  createdAt : Timestamp
  updatedAt : Timestamp
  headline : Option String
  bio : Option String
  skills : Option (List String)
  techStack : Option (List String)
  hourlyRate : Option Number
  availability : Option Availability
  portfolioLinks : Value
  socialLinks : Value
  handle : Option String
  orgName : Option String
  orgDescription : Option String
  orgWebsite : Option String
  lookingFor : Option (List String)
  orgLinks : Value
  deriving DecidableEq

/-- `PUBLIC_PROFILE_COLUMNS` of a row. -/
structure PublicProfile where
  id : String
  walletAddress : String
  displayName : Option String
  avatarUrl : Option String
  accountType : Option AccountType
  headline : Option String
  bio : Option String
  skills : Option (List String)
  techStack : Option (List String)
  hourlyRate : Option Number
  availability : Option Availability
  portfolioLinks : Value
  socialLinks : Value
  handle : Option String
  orgName : Option String
  orgDescription : Option String
  orgWebsite : Option String
  lookingFor : Option (List String)
  orgLinks : Value
  createdAt : Timestamp
  deriving DecidableEq

/-- `.select(PUBLIC_PROFILE_COLUMNS)`. -/
def ProfileRow.publicColumns (p : ProfileRow) : PublicProfile where
  id := p.id
  walletAddress := p.walletAddress
  displayName := p.displayName
  avatarUrl := p.avatarUrl
  accountType := p.accountType
  headline := p.headline
  bio := p.bio
  skills := p.skills
  techStack := p.techStack
  hourlyRate := p.hourlyRate
  availability := p.availability
  portfolioLinks := p.portfolioLinks
  socialLinks := p.socialLinks
  handle := p.handle
  orgName := p.orgName
  orgDescription := p.orgDescription
  orgWebsite := p.orgWebsite
  lookingFor := p.lookingFor
  orgLinks := p.orgLinks
  createdAt := p.createdAt

/-- A row of `profiles` as `getOrCreate` inserts it. -/
structure NewProfile where
  walletAddress : String
  accountType : AccountType
  role : ProfileRole
  deriving DecidableEq

/-- The inserted row, under the id and the time the database gives it. -/
def NewProfile.row (new : NewProfile) (id : String) (created : Timestamp) : ProfileRow where
  id
  walletAddress := new.walletAddress
  displayName := none
  email := none
  avatarUrl := none
  accountType := some new.accountType
  role := new.role
  showEarnings := false
  createdAt := created
  updatedAt := created
  headline := none
  bio := none
  skills := none
  techStack := none
  hourlyRate := none
  availability := none
  portfolioLinks := .null
  socialLinks := .null
  handle := none
  orgName := none
  orgDescription := none
  orgWebsite := none
  lookingFor := none
  orgLinks := .null

/-- `UpdateProfileDto`: the fields the validation pipe lets through. A field that is not there is
`none`, and `null` is `some none`. -/
structure UpdateProfileDto where
  displayName : Option (Option String) := none
  email : Option (Option String) := none
  avatarUrl : Option (Option String) := none
  accountType : Option (Option AccountType) := none
  headline : Option (Option String) := none
  bio : Option (Option String) := none
  skills : Option (Option (List String)) := none
  techStack : Option (Option (List String)) := none
  hourlyRate : Option (Option Number) := none
  availability : Option (Option Availability) := none
  portfolioLinks : Option Value := none
  socialLinks : Option Value := none
  handle : Option (Option String) := none
  orgName : Option (Option String) := none
  orgDescription : Option (Option String) := none
  orgWebsite : Option (Option String) := none
  lookingFor : Option (Option (List String)) := none
  orgLinks : Option Value := none
  showEarnings : Option (Option Bool) := none
  deriving DecidableEq

namespace ProfileRow

/-- The row after `.update({ ...dto, updated_at })`. -/
def apply (now : Timestamp) (dto : UpdateProfileDto) (p : ProfileRow) : ProfileRow :=
  { p with
    displayName := dto.displayName.getD p.displayName
    email := dto.email.getD p.email
    avatarUrl := dto.avatarUrl.getD p.avatarUrl
    accountType := dto.accountType.getD p.accountType
    headline := dto.headline.getD p.headline
    bio := dto.bio.getD p.bio
    skills := dto.skills.getD p.skills
    techStack := dto.techStack.getD p.techStack
    hourlyRate := dto.hourlyRate.getD p.hourlyRate
    availability := dto.availability.getD p.availability
    portfolioLinks := dto.portfolioLinks.getD p.portfolioLinks
    socialLinks := dto.socialLinks.getD p.socialLinks
    handle := dto.handle.getD p.handle
    orgName := dto.orgName.getD p.orgName
    orgDescription := dto.orgDescription.getD p.orgDescription
    orgWebsite := dto.orgWebsite.getD p.orgWebsite
    lookingFor := dto.lookingFor.getD p.lookingFor
    orgLinks := dto.orgLinks.getD p.orgLinks
    showEarnings := dto.showEarnings.join.getD p.showEarnings
    updatedAt := now }

/-- The row after `.update({ role, updated_at })`. -/
def setRole (now : Timestamp) (role : ProfileRole) (p : ProfileRow) : ProfileRow :=
  { p with role := role, updatedAt := now }

@[simp] theorem apply_id (now : Timestamp) (dto : UpdateProfileDto) (p : ProfileRow) :
    (p.apply now dto).id = p.id := rfl

@[simp] theorem apply_role (now : Timestamp) (dto : UpdateProfileDto) (p : ProfileRow) :
    (p.apply now dto).role = p.role := rfl

@[simp] theorem setRole_id (now : Timestamp) (role : ProfileRole) (p : ProfileRow) :
    (p.setRole now role).id = p.id := rfl

end ProfileRow

/-! ## Constraints -/

/-- `^[a-z0-9]+(?:-[a-z0-9]+)*$` with 3 to 32 characters. -/
def isHandle (s : String) : Bool :=
  (s.toList.splitOn '-').all (fun part => !part.isEmpty && part.all fun c =>
    ('a' ≤ c && c ≤ 'z') || ('0' ≤ c && c ≤ '9')) && 3 ≤ s.length && s.length ≤ 32

def notNullViolation : DbError :=
  ⟨"23502", "null value in column \"show_earnings\" of relation \"profiles\" violates not-null constraint"⟩

def checkViolation : DbError :=
  ⟨"23514", "new row for relation \"profiles\" violates check constraint \"profiles_handle_format\""⟩

/-- The constraint the rows would violate after an update. -/
def violated (dto : UpdateProfileDto) (rows : List ProfileRow) : Option DbError :=
  if dto.showEarnings = some none then some notNullViolation
  else if ¬ (rows.filterMap ProfileRow.handle).all isHandle then some checkViolation
  else if ¬ (rows.filterMap ProfileRow.handle).Nodup then some duplicateKey
  else none

/-! ## Queries -/

/-- What `discover` asks for, after it has read its parameters. -/
structure DiscoverQuery where
  skills : List String
  techStack : List String
  availability : Option Availability
  /-- The text of the search over headline and bio. -/
  search : Option String
  first : ℕ
  limit : ℕ
  deriving DecidableEq

/-- What PostgREST makes of a search and of a range. -/
structure Directory where
  /-- `headline.ilike.%s%,bio.ilike.%s%`, of a headline and a bio. -/
  matchesSearch : String → Option String → Option String → Bool
  /-- A search it cannot parse. -/
  searchError : String → Option DbError
  /-- A range that begins at an offset, of a number of rows. -/
  rangeError : ℕ → ℕ → Option DbError

/-- The queries of the profile service. -/
inductive ProfileCall where
  /-- A query of the wallet tables. -/
  | wallet (c : WalletCall)
  /-- The profile with a wallet, by `maybeSingle`. -/
  | findByWallet (walletAddress : String)
  /-- The profile with an id, by `maybeSingle`. -/
  | findById (id : String)
  /-- The public columns of the profile with a handle, by `maybeSingle`. -/
  | findByHandle (handle : String)
  /-- The profiles with a role, by `created_at DESC`. -/
  | listByRole (role : ProfileRole)
  /-- The public columns of the profiles that match, by `created_at DESC`, and how many there are. -/
  | discover (query : DiscoverQuery)
  | insertProfile (new : NewProfile)
  /-- An update of the profile with a wallet, which asks for the row back. -/
  | updateProfile (walletAddress : String) (now : Timestamp) (dto : UpdateProfileDto)
  /-- An update of the profiles with a wallet. -/
  | setRole (walletAddress : String) (now : Timestamp) (role : ProfileRole)
  deriving DecidableEq

/-- The data a query is answered with. -/
abbrev ProfileCall.answer : ProfileCall → Type
  | .wallet c => c.answer
  | .findByWallet _ | .findById _ => Option ProfileRow
  | .findByHandle _ => Option PublicProfile
  | .listByRole _ => List ProfileRow
  | .discover _ => List PublicProfile × ℕ
  | .insertProfile _ | .updateProfile _ _ _ => ProfileRow
  | .setRole _ _ _ => Unit

/-- What a query is answered with. -/
abbrev ProfileCall.reply (c : ProfileCall) : Type := Reply c.answer

structure ProfileDb where
  wallet : WalletDb
  profiles : List ProfileRow

/-- The row is one of the directory and passes the filters. -/
def DiscoverQuery.selects (directory : Directory) (query : DiscoverQuery) (p : PublicProfile) : Bool :=
  p.handle.isSome &&
    (query.skills.isEmpty || p.skills.any fun skills => skills.any (· ∈ query.skills)) &&
    (query.techStack.isEmpty || p.techStack.any fun techs => techs.any (· ∈ query.techStack)) &&
    (query.availability.all fun availability => p.availability = some availability) &&
    query.search.all fun text => directory.matchesSearch text p.headline p.bio

namespace ProfileDb

/-- The profiles with a wallet. -/
def byWallet (db : ProfileDb) (walletAddress : String) : List ProfileRow :=
  db.profiles.filter fun p => p.walletAddress = walletAddress

/-- Rewrite the profiles with a wallet. -/
def updateByWallet (db : ProfileDb) (walletAddress : String) (f : ProfileRow → ProfileRow) :
    ProfileDb :=
  { db with profiles := Table.updateWhere (fun p => p.walletAddress = walletAddress) f db.profiles }

/-- The public columns of the directory, in the order of the table. -/
def directoryRows (directory : Directory) (db : ProfileDb) (query : DiscoverQuery) :
    List PublicProfile :=
  (db.profiles.map ProfileRow.publicColumns).filter (query.selects directory)

end ProfileDb

/-- The error a query of the directory ends in. -/
def DiscoverQuery.error (directory : Directory) (query : DiscoverQuery) (total : ℕ) : Option DbError :=
  query.search.bind directory.searchError <|> directory.rangeError query.first total

/-- What the database does with a query that does not fail. The id and the creation time of a new
row are open, and so is the order of rows of one time. -/
def Answers (directory : Directory) : (c : ProfileCall) → ProfileDb → c.reply → ProfileDb → Prop
  | .wallet c, db, x, db' =>
      ∃ wallet, Wallets.Answers c db.wallet x wallet ∧ db' = { db with wallet := wallet }
  | .findByWallet walletAddress, db, x, db' => x = maybeSingle (db.byWallet walletAddress) ∧ db' = db
  | .findById id, db, x, db' => x = maybeSingle (db.profiles.filter fun p => p.id = id) ∧ db' = db
  | .findByHandle handle, db, x, db' =>
      x = maybeSingle ((db.profiles.filter fun p => p.handle = some handle).map
        ProfileRow.publicColumns) ∧ db' = db
  | .listByRole role, db, x, db' =>
      (∃ rows, x = .ok rows ∧ rows.Perm (db.profiles.filter fun p => p.role = role) ∧
        rows.Pairwise fun p q => q.createdAt ≤ p.createdAt) ∧ db' = db
  | .discover query, db, x, db' =>
      (match query.error directory (db.directoryRows directory query).length with
        | some e => x = .error e
        | none => ∃ rows : List PublicProfile, rows.Perm (db.directoryRows directory query) ∧
            (rows.Pairwise fun p q => q.createdAt ≤ p.createdAt) ∧
            x = .ok ((rows.drop query.first).take query.limit, rows.length)) ∧ db' = db
  | .insertProfile new, db, x, db' =>
      ∃ id created, (∀ p ∈ db.profiles, p.id ≠ id) ∧ x = .ok (new.row id created) ∧
        db' = { db with profiles := db.profiles ++ [new.row id created] }
  | .updateProfile walletAddress now dto, db, x, db' =>
      let next := db.updateByWallet walletAddress (ProfileRow.apply now dto)
      match db.byWallet walletAddress with
      | [p] => match violated dto next.profiles with
        | none => x = .ok (p.apply now dto) ∧ db' = next
        | some e => x = .error e ∧ db' = db
      -- a single row was asked for: the update is rolled back
      | _ => x = .error noRows ∧ db' = db
  | .setRole walletAddress now role, db, x, db' =>
      x = .ok () ∧ db' = db.updateByWallet walletAddress (ProfileRow.setRole now role)

/-- A query that fails reports an error and changes nothing. -/
def Fails (c : ProfileCall) (db : ProfileDb) (x : c.reply) (db' : ProfileDb) : Prop :=
  (∃ e, x = .error e) ∧ db' = db

/-- A query is answered, or fails. -/
def Executes (directory : Directory) (c : ProfileCall) (db : ProfileDb) (x : c.reply)
    (db' : ProfileDb) : Prop :=
  Answers directory c db x db' ∨ Fails c db x db'

/-! ## A database that answers -/

/-- The newest first. -/
def newestFirst {α : Type} (createdAt : α → Timestamp) (rows : List α) : List α :=
  rows.insertionSort fun p q => createdAt q ≤ createdAt p

theorem newestFirst_perm {α : Type} (createdAt : α → Timestamp) (rows : List α) :
    (newestFirst createdAt rows).Perm rows :=
  List.perm_insertionSort _ _

theorem newestFirst_sorted {α : Type} (createdAt : α → Timestamp) (rows : List α) :
    (newestFirst createdAt rows).Pairwise fun p q => createdAt q ≤ createdAt p := by
  have htotal : Std.Total fun p q : α => createdAt q ≤ createdAt p := ⟨fun p q => le_total _ _⟩
  have htrans : IsTrans α fun p q => createdAt q ≤ createdAt p := ⟨fun p q r hpq hqr => hqr.trans hpq⟩
  exact List.pairwise_insertionSort _ _

/-- The answer to a query. -/
def ProfileDb.answer (directory : Directory) : (c : ProfileCall) → ProfileDb → c.reply × ProfileDb
  | .wallet c, db => ((db.wallet.answer c).1, { db with wallet := (db.wallet.answer c).2 })
  | .findByWallet walletAddress, db => (maybeSingle (db.byWallet walletAddress), db)
  | .findById id, db => (maybeSingle (db.profiles.filter fun p => p.id = id), db)
  | .findByHandle handle, db =>
      (maybeSingle ((db.profiles.filter fun p => p.handle = some handle).map
        ProfileRow.publicColumns), db)
  | .listByRole role, db =>
      (.ok (newestFirst ProfileRow.createdAt (db.profiles.filter fun p => p.role = role)), db)
  | .discover query, db =>
      let rows := newestFirst PublicProfile.createdAt (db.directoryRows directory query)
      match query.error directory rows.length with
      | some e => (.error e, db)
      | none => (.ok ((rows.drop query.first).take query.limit, rows.length), db)
  | .insertProfile new, db =>
      let row := new.row (freshText (db.profiles.map ProfileRow.id)) 0
      (.ok row, { db with profiles := db.profiles ++ [row] })
  | .updateProfile walletAddress now dto, db =>
      let next := db.updateByWallet walletAddress (ProfileRow.apply now dto)
      match db.byWallet walletAddress with
      | [p] => match violated dto next.profiles with
        | none => (.ok (p.apply now dto), next)
        | some e => (.error e, db)
      | _ => (.error noRows, db)
  | .setRole walletAddress now role, db =>
      (.ok (), db.updateByWallet walletAddress (ProfileRow.setRole now role))

theorem ProfileDb.answers_answer (directory : Directory) (c : ProfileCall) (db : ProfileDb) :
    Answers directory c db (db.answer directory c).1 (db.answer directory c).2 := by
  cases c with
  | wallet c => exact ⟨_, db.wallet.answers_answer c, rfl⟩
  | listByRole role => exact ⟨⟨_, rfl, newestFirst_perm _ _, newestFirst_sorted _ _⟩, rfl⟩
  | discover query =>
      have hperm := newestFirst_perm PublicProfile.createdAt (db.directoryRows directory query)
      simp only [Answers, ProfileDb.answer, hperm.length_eq]
      split
      · exact ⟨rfl, rfl⟩
      · exact ⟨⟨_, hperm, newestFirst_sorted _ _, by rw [hperm.length_eq]⟩, rfl⟩
  | insertProfile new =>
      exact ⟨_, _, fun p hp => freshText_ne (List.mem_map_of_mem hp), rfl, rfl⟩
  | updateProfile walletAddress now dto =>
      rcases h : db.byWallet walletAddress with _ | ⟨p, _ | ⟨q, rest⟩⟩
      · simp [Answers, ProfileDb.answer, h]
      · simp only [Answers, ProfileDb.answer, h]
        split
        · exact ⟨rfl, rfl⟩
        · exact ⟨rfl, rfl⟩
      · simp [Answers, ProfileDb.answer, h]
  | _ => exact ⟨rfl, rfl⟩

end ThalosBackend.Profiles
