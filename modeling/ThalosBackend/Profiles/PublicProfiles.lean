import ThalosBackend.Profiles.AdminRights
import ThalosBackend.Profiles.ReputationService

/-!
# What everybody may see of a profile

The endpoints that ask for no login: the directory, a profile by handle, its reputation, a profile by
wallet, and the lists of dispute resolvers and validators. Two stores are compared that differ in
private data alone: in emails, and in the amounts of agreements none of whose parties shows earnings.

The directory, the profile by handle and the reputation answer the same over both. The other endpoints
show whole rows, so they answer the same exactly when the emails of these rows are the same.
-/

set_option autoImplicit false

namespace ThalosBackend.Profiles

open Js (FloatArithmetic)
open Agreements
open Wallets (Reply maybeSingle)

/-! ## Requests without a login -/

/-- The tables behind the public endpoints. -/
structure PublicStore where
  profile : ProfileDb
  agreement : AgreementDb

inductive PublicRequest where
  | discover (dto : DiscoverProfilesDto)
  | byHandle (handle : String)
  | reputation (handle : String)
  | byWallet (walletAddress : String)
  | disputeResolvers
  | validators
  deriving DecidableEq

inductive PublicResponse where
  | page (result : Except HttpException DirectoryPage)
  | publicProfile (result : Except HttpException PublicProfileResult)
  | reputation (result : Except HttpException ReputationPayload)
  | profile (result : Except HttpException ProfileResult)
  | profiles (result : Except HttpException ProfileList)

/-- `.select('id, wallet_address, handle, show_earnings')`. -/
def ProfileRow.forReputation (p : ProfileRow) : Profile where
  walletAddress := p.walletAddress
  handle := p.handle
  showEarnings := p.showEarnings

/-- `profileByHandle(handle)`. -/
def profileByHandle (db : ProfileDb) (handle : String) : Except HttpException Profile :=
  match maybeSingle ((db.profiles.filter fun p => p.handle = some handle).map
      ProfileRow.forReputation) with
  | .error e => .error (.badRequest e.message)
  | .ok none => .error (.notFound ("No profile found for handle \"" ++ handle ++ "\""))
  | .ok (some profile) => .ok profile

/-- The answer to a request, every query answered. -/
def respond (F : FloatArithmetic) (directory : Directory) (s : PublicStore) :
    PublicRequest → PublicResponse
  | .discover dto =>
      .page (Calls.run (fun c db => db.answer directory c) (discover dto) s.profile).1
  | .byHandle handle =>
      .publicProfile (Calls.run (fun c db => db.answer directory c) (getByHandle handle) s.profile).1
  | .reputation handle =>
      .reputation ((profileByHandle s.profile handle).map (getPublicReputation F s.agreement))
  | .byWallet walletAddress =>
      .profile (Calls.run (fun c db => db.answer directory c) (getByWallet walletAddress) s.profile).1
  | .disputeResolvers =>
      .profiles (Calls.run (fun c db => db.answer directory c) getDisputeResolvers s.profile).1
  | .validators =>
      .profiles (Calls.run (fun c db => db.answer directory c) getValidators s.profile).1

/-- The answers to a sequence of requests. None of them writes. -/
def responses (F : FloatArithmetic) (directory : Directory) (s : PublicStore)
    (requests : List PublicRequest) : List PublicResponse :=
  requests.map (respond F directory s)

/-! ## Private data -/

/-- The row but for its email. -/
def ProfileRow.withoutEmail (p : ProfileRow) : ProfileRow := { p with email := none }

/-- The milestone but for its amount. -/
def withoutAmount (m : Milestone) : Milestone := { m with amount := "" }

/-- The agreement but for the amounts of its milestones. -/
def withoutAmounts (a : Agreement) : Agreement := { a with milestones := a.milestones.map withoutAmount }

/-- No party of the agreement shows earnings. -/
def earningsHidden (s : PublicStore) (a : Agreement) : Prop :=
  ∀ party ∈ s.agreement.participants, party.agreementId = a.id →
    ∀ p ∈ s.profile.profiles, p.walletAddress = party.walletAddress → p.showEarnings ≠ true

/-- The stores differ in emails and in amounts of agreements whose parties hide their earnings. -/
structure DifferInPrivate (s s' : PublicStore) : Prop where
  wallet : s'.profile.wallet = s.profile.wallet
  profiles : s'.profile.profiles.map ProfileRow.withoutEmail =
    s.profile.profiles.map ProfileRow.withoutEmail
  agreements : List.Forall₂
    (fun a a' => a' = a ∨ (earningsHidden s a ∧ withoutAmounts a' = withoutAmounts a))
    s.agreement.agreements s'.agreement.agreements
  others : { s'.agreement with agreements := s.agreement.agreements } = s.agreement

/-- The rows that a request shows with all their columns. -/
def shownWhole (s : PublicStore) : PublicRequest → List ProfileRow
  | .byWallet walletAddress => (Table.sole (s.profile.byWallet walletAddress)).toList
  | .disputeResolvers => s.profile.profiles.filter fun p => p.role = .disputeResolver
  | .validators => s.profile.profiles.filter fun p => p.role = .validator
  | _ => []

/-- The request shows the same emails over both stores. -/
def showsSameEmails (s s' : PublicStore) (request : PublicRequest) : Prop :=
  (shownWhole s' request).map ProfileRow.email = (shownWhole s request).map ProfileRow.email

instance (s s' : PublicStore) (request : PublicRequest) : Decidable (showsSameEmails s s' request) :=
  inferInstanceAs (Decidable (_ = _))

/-! ## Rows that differ in the email -/

section Rows

variable {rows rows' : List ProfileRow}

theorem eq_of_withoutEmail {p p' : ProfileRow} (h : p'.withoutEmail = p.withoutEmail)
    (hemail : p'.email = p.email) : p' = p := by
  have hall : ∀ q : ProfileRow, q = { q.withoutEmail with email := q.email } := fun q => rfl
  rw [hall p, hall p', h, hemail]

/-- Rows that agree but for the email are equal exactly when the emails are. -/
theorem eq_iff_emails (h : rows'.map ProfileRow.withoutEmail = rows.map ProfileRow.withoutEmail) :
    rows' = rows ↔ rows'.map ProfileRow.email = rows.map ProfileRow.email := by
  constructor
  · rintro rfl
    rfl
  · intro hemails
    induction rows generalizing rows' with
    | nil => simpa using h
    | cons p rest ih =>
        cases rows' with
        | nil => cases h
        | cons p' rest' =>
            obtain ⟨hhead, htail⟩ := List.cons.inj h
            obtain ⟨hemail, hemails⟩ := List.cons.inj hemails
            rw [eq_of_withoutEmail hhead hemail, ih htail hemails]

/-- A column that leaves the email out. -/
theorem map_eq_of_withoutEmail {γ : Type} {g : ProfileRow → γ}
    (hg : ∀ p : ProfileRow, g p.withoutEmail = g p)
    (h : rows'.map ProfileRow.withoutEmail = rows.map ProfileRow.withoutEmail) :
    rows'.map g = rows.map g := by
  have hthrough : ∀ l : List ProfileRow, l.map g = (l.map ProfileRow.withoutEmail).map g := by
    intro l
    rw [List.map_map]
    exact List.map_congr_left fun p _ => (hg p).symm
  rw [hthrough rows, hthrough rows', h]

/-- A selection that does not look at the email. -/
theorem filter_withoutEmail {q : ProfileRow → Bool} (hq : ∀ p : ProfileRow, q p.withoutEmail = q p)
    (h : rows'.map ProfileRow.withoutEmail = rows.map ProfileRow.withoutEmail) :
    (rows'.filter q).map ProfileRow.withoutEmail = (rows.filter q).map ProfileRow.withoutEmail := by
  have hthrough : ∀ l : List ProfileRow, (l.filter q).map ProfileRow.withoutEmail =
      (l.map ProfileRow.withoutEmail).filter q := by
    intro l
    rw [List.filter_map]
    congr 2
    funext p
    exact (hq p).symm
  rw [hthrough rows, hthrough rows', h]

/-- Rows of the same times, in the same order once sorted, were in the same order before. -/
theorem newestFirst_inj {α : Type} {createdAt : α → Js.Timestamp} {xs ys : List α}
    (htimes : xs.map createdAt = ys.map createdAt)
    (h : newestFirst createdAt xs = newestFirst createdAt ys) : xs = ys := by
  have hpaired : List.Forall₂ (fun x y => createdAt x = createdAt y) xs ys := by
    rw [← List.forall₂_eq_eq_eq, List.forall₂_map_left_iff, List.forall₂_map_right_iff] at htimes
    exact htimes
  obtain ⟨hlength, htime⟩ := List.forall₂_iff_zip.mp hpaired
  -- both lists are sorted alike, as the two sides of one list of pairs
  have hleft : ((xs.zip ys).insertionSort fun p q => createdAt q.1 ≤ createdAt p.1).map Prod.fst =
      newestFirst createdAt xs := by
    rw [List.map_insertionSort _ (fun p q => createdAt q ≤ createdAt p) _ _ fun _ _ _ _ => Iff.rfl,
      List.map_fst_zip hlength.le]
    rfl
  have hright : ((xs.zip ys).insertionSort fun p q => createdAt q.1 ≤ createdAt p.1).map Prod.snd =
      newestFirst createdAt ys := by
    have hsides : ∀ p ∈ xs.zip ys, ∀ q ∈ xs.zip ys,
        createdAt q.1 ≤ createdAt p.1 ↔ createdAt q.2 ≤ createdAt p.2 := by
      intro p hp q hq
      rw [htime hp, htime hq]
    rw [List.map_insertionSort _ (fun p q => createdAt q ≤ createdAt p) _ _ hsides,
      List.map_snd_zip hlength.ge]
    rfl
  rw [← hleft, ← hright, List.map_inj_left] at h
  have hsame : (xs.zip ys).map Prod.fst = (xs.zip ys).map Prod.snd := by
    refine List.map_inj_left.mpr fun p hp => h p ?_
    exact (List.perm_insertionSort _ _).mem_iff.mpr hp
  rw [List.map_fst_zip hlength.le, List.map_snd_zip hlength.ge] at hsame
  exact hsame

/-- One row is found over both stores, or over neither. -/
theorem sole_withoutEmail
    (h : rows'.map ProfileRow.withoutEmail = rows.map ProfileRow.withoutEmail) :
    (Table.sole rows').toList.map ProfileRow.withoutEmail =
      (Table.sole rows).toList.map ProfileRow.withoutEmail := by
  rcases rows with _ | ⟨p, _ | ⟨q, rest⟩⟩
  · rw [List.map_eq_nil_iff.mp h]
  · obtain ⟨p', hp', hemail⟩ := List.map_eq_singleton_iff.mp h
    rw [hp']
    exact congrArg (fun x => [x]) hemail
  · rcases rows' with _ | ⟨p', _ | ⟨q', rest'⟩⟩
    · cases h
    · have hlength := congrArg List.length h
      simp at hlength
    · rfl

end Rows

/-! ## What each endpoint answers -/

section Endpoints

variable {F : FloatArithmetic} {directory : Directory} {s s' : PublicStore}

theorem respond_byWallet (walletAddress : String) :
    respond F directory s (.byWallet walletAddress) =
      .profile (.ok ⟨Table.sole (s.profile.byWallet walletAddress), none⟩) := by
  have hreply : ∀ rows : List ProfileRow,
      ProfileResult.ofReply (maybeSingle rows) = ⟨Table.sole rows, none⟩ := by
    intro rows
    rcases rows with _ | ⟨p, _ | ⟨q, rest⟩⟩
    · rfl
    · rfl
    · rfl
  exact congrArg (fun result => PublicResponse.profile (.ok result)) (hreply _)

theorem respond_disputeResolvers : respond F directory s .disputeResolvers =
    .profiles (.ok ⟨newestFirst ProfileRow.createdAt
      (s.profile.profiles.filter fun p => p.role = .disputeResolver), none⟩) := rfl

theorem respond_validators : respond F directory s .validators =
    .profiles (.ok ⟨newestFirst ProfileRow.createdAt
      (s.profile.profiles.filter fun p => p.role = .validator), none⟩) := rfl

/-- Lists of whole rows answer the same exactly when they show the same emails. -/
theorem list_eq_iff {rows rows' : List ProfileRow}
    (h : rows'.map ProfileRow.withoutEmail = rows.map ProfileRow.withoutEmail) :
    newestFirst ProfileRow.createdAt rows' = newestFirst ProfileRow.createdAt rows ↔
      rows'.map ProfileRow.email = rows.map ProfileRow.email := by
  rw [← eq_iff_emails h]
  constructor
  · exact newestFirst_inj (map_eq_of_withoutEmail (fun _ => rfl) h)
  · rintro rfl
    rfl

theorem respond_discover (h : DifferInPrivate s s') (dto : DiscoverProfilesDto) :
    respond F directory s' (.discover dto) = respond F directory s (.discover dto) := by
  have hcolumns : s'.profile.profiles.map ProfileRow.publicColumns =
      s.profile.profiles.map ProfileRow.publicColumns :=
    map_eq_of_withoutEmail (fun _ => rfl) h.profiles
  have hreply : ∀ query, (s'.profile.answer directory (.discover query)).1 =
      (s.profile.answer directory (.discover query)).1 := by
    intro query
    simp only [ProfileDb.answer, ProfileDb.directoryRows, hcolumns]
    split
    · rfl
    · rfl
  simp only [respond, discover, Calls.ask_bind, Calls.run, hreply]
  split
  · rfl
  · rfl

theorem respond_byHandle (h : DifferInPrivate s s') (handle : String) :
    respond F directory s' (.byHandle handle) = respond F directory s (.byHandle handle) := by
  have hreply : (s'.profile.answer directory (.findByHandle handle)).1 =
      (s.profile.answer directory (.findByHandle handle)).1 := by
    have hrows := filter_withoutEmail (q := fun p => p.handle = some handle) (fun _ => rfl) h.profiles
    exact congrArg maybeSingle (map_eq_of_withoutEmail (fun _ => rfl) hrows)
  simp only [respond, getByHandle, Calls.ask_bind, Calls.run, hreply]
  split
  · split
    · rfl
    · rfl
  · rfl
  · rfl

/-! ## Reputation -/

theorem profileByHandle_eq (h : DifferInPrivate s s') (handle : String) :
    profileByHandle s'.profile handle = profileByHandle s.profile handle := by
  have hrows := filter_withoutEmail (q := fun p => p.handle = some handle) (fun _ => rfl) h.profiles
  have hcolumns := map_eq_of_withoutEmail (g := ProfileRow.forReputation) (fun _ => rfl) hrows
  simp only [profileByHandle, hcolumns]

/-- The profile found by handle is that of a row. -/
theorem mem_of_profileByHandle {db : ProfileDb} {handle : String} {profile : Profile}
    (h : profileByHandle db handle = .ok profile) :
    ∃ p ∈ db.profiles, p.forReputation = profile := by
  unfold profileByHandle at h
  split at h
  · cases h
  · cases h
  · rename_i found hfound
    cases h
    rcases hrows : (db.profiles.filter fun p => p.handle = some handle).map
        ProfileRow.forReputation with _ | ⟨q, _ | ⟨r, rest⟩⟩
    · rw [hrows] at hfound
      cases hfound
    · rw [hrows] at hfound
      cases hfound
      obtain ⟨p, hp, hprofile⟩ := List.mem_map.mp (hrows ▸ List.mem_singleton_self _)
      exact ⟨p, (List.mem_filter.mp hp).1, hprofile⟩
    · rw [hrows] at hfound
      cases hfound

/-- Without earnings the reputation does not look at amounts. -/
theorem computeReputation_withoutAmounts (agreements : List Agreement) (profile : Profile) :
    computeReputation F (agreements.map withoutAmounts) profile false =
      computeReputation F agreements profile false := by
  have hmilestones : countedMilestones (agreements.map withoutAmounts) =
      (countedMilestones agreements).map withoutAmount := by
    simp only [countedMilestones, List.flatMap_map, List.map_flatMap]
    rfl
  have hcompleted : (agreements.map withoutAmounts).countP (fun a => a.status = some "completed") =
      agreements.countP fun a => a.status = some "completed" := by
    rw [List.countP_map]
    rfl
  simp only [computeReputation, hmilestones, hcompleted, List.filter_map, List.length_map,
    List.countP_map]
  rfl

/-- The agreements that a builder takes part in, over both stores. -/
theorem fetchBuilderAgreements_forall₂ (h : DifferInPrivate s s') (walletAddress : String) :
    List.Forall₂ (fun a a' => a' = a ∨ (earningsHidden s a ∧ withoutAmounts a' = withoutAmounts a))
      (fetchBuilderAgreements s.agreement walletAddress)
      (fetchBuilderAgreements s'.agreement walletAddress) := by
  have hparties : s'.agreement.participants = s.agreement.participants := by
    rw [← h.others]
  have hid : ∀ a a' : Agreement, withoutAmounts a' = withoutAmounts a → a'.id = a.id := by
    intro a a' hsame
    have hids := congrArg Agreement.id hsame
    exact hids
  simp only [fetchBuilderAgreements, hparties]
  refine List.rel_filter ?_ h.agreements
  rintro a a' (rfl | ⟨-, hsame⟩)
  · exact Iff.rfl
  · simp only [hid a a' hsame]

/-- The reputation shows amounts of agreements only that some party shows. -/
theorem respond_reputation (h : DifferInPrivate s s') (handle : String) :
    respond F directory s' (.reputation handle) = respond F directory s (.reputation handle) := by
  simp only [respond, profileByHandle_eq h]
  cases hprofile : profileByHandle s.profile handle with
  | error e => rfl
  | ok profile =>
      have hfetched := fetchBuilderAgreements_forall₂ h profile.walletAddress
      refine congrArg (fun payload => PublicResponse.reputation (.ok payload)) ?_
      simp only [getPublicReputation]
      cases hshown : profile.showEarnings with
      | false =>
          have hsame : (fetchBuilderAgreements s'.agreement profile.walletAddress).map withoutAmounts =
              (fetchBuilderAgreements s.agreement profile.walletAddress).map withoutAmounts := by
            rw [← List.forall₂_eq_eq_eq, List.forall₂_map_left_iff, List.forall₂_map_right_iff]
            refine hfetched.flip.imp ?_
            rintro a' a (rfl | ⟨-, hsame⟩)
            · rfl
            · exact hsame
          rw [← computeReputation_withoutAmounts, hsame, computeReputation_withoutAmounts]
      | true =>
          -- the builder is a party of each of them, so none of them hides its earnings
          have hsame : fetchBuilderAgreements s'.agreement profile.walletAddress =
              fetchBuilderAgreements s.agreement profile.walletAddress := by
            rw [← List.forall₂_eq_eq_eq]
            refine (Table.forall₂_imp_mem hfetched ?_).flip
            rintro a a' ha (rfl | ⟨hhidden, -⟩)
            · rfl
            · obtain ⟨p, hp, rfl⟩ := mem_of_profileByHandle hprofile
              have hparty := of_decide_eq_true (List.mem_filter.mp ha).2
              obtain ⟨party, hparty, hagreement⟩ := List.mem_map.mp hparty
              obtain ⟨hparty, hwallet⟩ := List.mem_filter.mp hparty
              have hown : p.walletAddress = party.walletAddress :=
                (of_decide_eq_true hwallet).symm
              exact absurd hshown (hhidden party hparty hagreement p hp hown)
          rw [hsame]

/-! ## All of them -/

/-- A request is answered the same over both stores exactly when it shows the same emails. -/
theorem respond_eq_iff (h : DifferInPrivate s s') (request : PublicRequest) :
    respond F directory s' request = respond F directory s request ↔ showsSameEmails s s' request := by
  have hrole : ∀ role : ProfileRole,
      (s'.profile.profiles.filter fun p => p.role = role).map ProfileRow.withoutEmail =
        (s.profile.profiles.filter fun p => p.role = role).map ProfileRow.withoutEmail :=
    fun role => filter_withoutEmail (q := fun p => p.role = role) (fun _ => rfl) h.profiles
  cases request with
  | discover dto => exact iff_of_true (respond_discover h dto) rfl
  | byHandle handle => exact iff_of_true (respond_byHandle h handle) rfl
  | reputation handle => exact iff_of_true (respond_reputation h handle) rfl
  | byWallet walletAddress =>
      have hrows := sole_withoutEmail (filter_withoutEmail
        (q := fun p => p.walletAddress = walletAddress) (fun _ => rfl) h.profiles)
      rw [respond_byWallet, respond_byWallet, showsSameEmails]
      refine Iff.trans ?_ (eq_iff_emails hrows)
      have hfound : ∀ found found' : Option ProfileRow,
          found'.toList = found.toList ↔ found' = found := by
        intro found found'
        cases found <;> cases found' <;> simp
      refine Iff.trans ?_ (hfound _ _).symm
      rw [PublicResponse.profile.injEq, Except.ok.injEq, ProfileResult.mk.injEq]
      exact and_iff_left rfl
  | disputeResolvers =>
      rw [respond_disputeResolvers, respond_disputeResolvers, showsSameEmails]
      refine Iff.trans ?_ (list_eq_iff (hrole .disputeResolver))
      rw [PublicResponse.profiles.injEq, Except.ok.injEq, ProfileList.mk.injEq]
      exact and_iff_left rfl
  | validators =>
      rw [respond_validators, respond_validators, showsSameEmails]
      refine Iff.trans ?_ (list_eq_iff (hrole .validator))
      rw [PublicResponse.profiles.injEq, Except.ok.injEq, ProfileList.mk.injEq]
      exact and_iff_left rfl

/-- **No private data without a login.** The answers to a sequence of requests are the same over two
stores that differ in private data, exactly when each request that shows whole profiles shows the
same emails. -/
theorem responses_eq_iff (h : DifferInPrivate s s') (requests : List PublicRequest) :
    responses F directory s' requests = responses F directory s requests ↔
      ∀ request ∈ requests, showsSameEmails s s' request := by
  rw [responses, responses, List.map_inj_left]
  exact forall₂_congr fun request _ => respond_eq_iff h request

end Endpoints

/-- A profile with this email, under the wallet `P` and without a handle. -/
def profileWithEmail (email : String) : ProfileRow :=
  { (GetOrCreateProfileDto.mk "P" none).row.row "p" 0 with email := some email }

/-- A store with this profile and no agreement. -/
def storeWithEmail (email : String) : PublicStore where
  profile := ⟨newStore.wallet, [profileWithEmail email]⟩
  agreement := newStore

theorem storeWithEmail_differ (email email' : String) :
    DifferInPrivate (storeWithEmail email) (storeWithEmail email') where
  wallet := rfl
  profiles := rfl
  agreements := .nil
  others := rfl

/-- The directory and the reputation show no email. -/
theorem responses_eq_directory :
    responses exactArithmetic plainDirectory (storeWithEmail "b") [.discover {}, .reputation "h"] =
        responses exactArithmetic plainDirectory (storeWithEmail "a") [.discover {}, .reputation "h"] ↔
      ∀ request ∈ [PublicRequest.discover {}, .reputation "h"],
        showsSameEmails (storeWithEmail "a") (storeWithEmail "b") request :=
  responses_eq_iff (storeWithEmail_differ "a" "b") _

/-- A profile by wallet shows the email to everybody. -/
theorem not_responses_eq : ¬ ∀ s s', DifferInPrivate s s' → ∀ requests,
    responses exactArithmetic plainDirectory s' requests =
      responses exactArithmetic plainDirectory s requests := by
  intro h
  have heq := h _ _ (storeWithEmail_differ "a" "b") [.byWallet "P"]
  rw [responses, responses, List.map_inj_left] at heq
  have hemails := (respond_eq_iff (storeWithEmail_differ "a" "b") _).mp
    (heq (.byWallet "P") List.mem_cons_self)
  exact absurd hemails (by decide)

end ThalosBackend.Profiles
