import ThalosBackend.Agreements.ReconcilePolicy

/-!
# Syncing twice

What a sync is about of an agreement is its contract, its status and its milestones, its `Mirror`. On
mirrors, `doSync` and `doReconcile` are functions of what Trustless Work answers, and applying one of them
twice is applying it once: the status that is pulled is pulled again or matches, and the milestones that
are corrected are corrected already.

Participants are added in a pull only, and only those whose key is not there. Who pulls a second time has
pulled the first time, and finds them all.
-/

set_option autoImplicit false

namespace ThalosBackend.Agreements

open Js (Timestamp Value nonEmpty)
open Calls (ask Ensures Runs)

/-! ## Mirrors -/

/-- The columns of an agreement that a sync reads and writes. -/
structure Mirror where
  contractId : Option String
  status : Option String
  milestones : List Milestone

def Agreement.mirror (a : Agreement) : Mirror := ⟨a.contractId, a.status, a.milestones⟩

/-- The mirror of the agreement under an id. -/
def AgreementDb.mirrorAt (db : AgreementDb) (id : String) : Option Mirror :=
  (db.agreementAt id).map Agreement.mirror

namespace Mirror

/-- The escrow that is fetched for the agreement. -/
def escrow (fetch : Fetch) (m : Mirror) : Option Value :=
  (nonEmpty m.contractId).bind fun contractId =>
    if (fetchTrustlessEscrow contractId fetch).truthy then
      some (fetchTrustlessEscrow contractId fetch)
    else none

/-- The direction of a sync with an escrow. -/
def direction (e : Value) (m : Mirror) : Option SyncDirection :=
  (mappedStatus e).map (syncDirection (m.status.getD "pending"))

/-- The status after `doSync`. -/
def pull (e : Value) (m : Mirror) : Mirror :=
  if m.direction e = some .twToThalos then
    { m with status := ((mappedStatus e).bind columnValue).getD m.status }
  else m

/-- The milestones after the second part of `doReconcile`. -/
def correct (e : Value) (m : Mirror) : Mirror :=
  if readsMilestones e m.milestones.length then
    { m with milestones := correctedMilestones e m.milestones }
  else m

/-- `doSync`. -/
def sync (fetch : Fetch) (m : Mirror) : Mirror :=
  match m.escrow fetch with
  | none => m
  | some e => m.pull e

/-- `doReconcile`. -/
def reconcile (fetch : Fetch) (m : Mirror) : Mirror :=
  match m.escrow fetch with
  | none => m
  | some e =>
    match m.direction e with
    | none => m
    | some .alreadyInSync => m
    | some _ => (m.pull e).correct e

/-! ### Twice is once -/

variable {e : Value} {m m' : Mirror} {fetch : Fetch}

theorem direction_congr (h : m'.status = m.status) : m'.direction e = m.direction e := by
  rw [direction, direction, h]

theorem escrow_congr (h : m'.contractId = m.contractId) : m'.escrow fetch = m.escrow fetch := by
  rw [escrow, escrow, h]

@[simp] theorem pull_contractId : (m.pull e).contractId = m.contractId := by
  unfold pull
  split <;> rfl

@[simp] theorem pull_milestones : (m.pull e).milestones = m.milestones := by
  unfold pull
  split <;> rfl

@[simp] theorem correct_contractId : (m.correct e).contractId = m.contractId := by
  unfold correct
  split <;> rfl

@[simp] theorem correct_status : (m.correct e).status = m.status := by
  unfold correct
  split <;> rfl

/-- A status that is not pulled stays. -/
theorem pull_of_ne (h : m.direction e ≠ some .twToThalos) : m.pull e = m := if_neg h

/-- What is pulled a second time is there already. -/
theorem pull_pull : (m.pull e).pull e = m.pull e := by
  by_cases hpull : m.direction e = some .twToThalos
  · have hstatus : (m.pull e).status = ((mappedStatus e).bind columnValue).getD m.status := by
      rw [pull, if_pos hpull]
    by_cases hagain : (m.pull e).direction e = some .twToThalos
    · have hsame : ((mappedStatus e).bind columnValue).getD (m.pull e).status = (m.pull e).status := by
        rw [hstatus]
        cases (mappedStatus e).bind columnValue <;> rfl
      rw [pull, if_pos hagain, hsame]
    · exact pull_of_ne hagain
  · rw [pull_of_ne hpull, pull_of_ne hpull]

/-- Who pulls after a pull has pulled. -/
theorem direction_of_pull (h : (m.pull e).direction e = some .twToThalos) :
    m.direction e = some .twToThalos := by
  by_contra hne
  rw [pull_of_ne hne] at h
  exact hne h

theorem length_correctedMilestones (milestones : List Milestone) :
    (correctedMilestones e milestones).length = milestones.length := List.length_mapIdx

theorem correctedMilestones_twice (milestones : List Milestone) :
    correctedMilestones e (correctedMilestones e milestones) = correctedMilestones e milestones := by
  refine List.ext_getElem? fun index => ?_
  simp only [correctedMilestones, List.getElem?_mapIdx, Option.map_map]
  refine congrArg (fun f => Option.map f milestones[index]?) (funext fun m => ?_)
  cases givenStatus e index <;> rfl

theorem correct_correct : (m.correct e).correct e = m.correct e := by
  by_cases hreads : readsMilestones e m.milestones.length = true
  · have hcorrect : m.correct e = { m with milestones := correctedMilestones e m.milestones } :=
      if_pos hreads
    rw [hcorrect, correct, length_correctedMilestones, if_pos hreads, correctedMilestones_twice]
  · have hleft : m.correct e = m := if_neg hreads
    rw [hleft, hleft]

/-- The two parts of a reconcile do not look at what the other one writes. -/
theorem correct_pull : (m.correct e).pull e = (m.pull e).correct e := by
  have hdirection : (m.correct e).direction e = m.direction e := direction_congr correct_status
  by_cases hpull : m.direction e = some .twToThalos
  · rw [pull, pull, hdirection, if_pos hpull, if_pos hpull]
    unfold correct
    dsimp only
    split <;> rfl
  · rw [pull_of_ne hpull, pull_of_ne (hdirection ▸ hpull)]

@[simp] theorem sync_contractId : (m.sync fetch).contractId = m.contractId := by
  unfold sync
  split
  · rfl
  · exact pull_contractId

@[simp] theorem reconcile_contractId : (m.reconcile fetch).contractId = m.contractId := by
  unfold reconcile
  split
  · rfl
  · split
    · rfl
    · rfl
    · simp

theorem sync_sync : (m.sync fetch).sync fetch = m.sync fetch := by
  have hescrow : (m.sync fetch).escrow fetch = m.escrow fetch := escrow_congr sync_contractId
  cases he : m.escrow fetch with
  | none =>
      have hsync : m.sync fetch = m := by rw [sync, he]
      rw [hsync, hsync]
  | some e =>
      have hsync : m.sync fetch = m.pull e := by rw [sync, he]
      rw [hsync] at hescrow ⊢
      rw [sync, hescrow, he]
      exact pull_pull

/-- A reconcile that stops after `doSync`. -/
theorem reconcile_stops (he : m.escrow fetch = some e)
    (hstops : m.direction e = none ∨ m.direction e = some .alreadyInSync) :
    m.reconcile fetch = m := by
  rw [reconcile, he]
  rcases hstops with h | h <;> simp only [h]

/-- A reconcile that goes on. -/
theorem reconcile_goes (he : m.escrow fetch = some e) (hnone : m.direction e ≠ none)
    (hinSync : m.direction e ≠ some .alreadyInSync) :
    m.reconcile fetch = (m.pull e).correct e := by
  unfold reconcile
  rw [he]
  dsimp only
  split
  · rename_i h
    exact absurd h hnone
  · rename_i h
    exact absurd h hinSync
  · rfl

/-- A reconcile after a reconcile corrects nothing more, whichever of its three ways it goes. -/
theorem reconcile_reconcile : (m.reconcile fetch).reconcile fetch = m.reconcile fetch := by
  have hescrow : (m.reconcile fetch).escrow fetch = m.escrow fetch :=
    escrow_congr reconcile_contractId
  cases he : m.escrow fetch with
  | none =>
      have hreconcile : m.reconcile fetch = m := by rw [reconcile, he]
      rw [hreconcile, hreconcile]
  | some e =>
      by_cases hstops : m.direction e = none ∨ m.direction e = some .alreadyInSync
      · rw [reconcile_stops he hstops, reconcile_stops he hstops]
      · obtain ⟨hnone, hinSync⟩ := not_or.mp hstops
        rw [reconcile_goes he hnone hinSync] at hescrow ⊢
        rw [he] at hescrow
        by_cases hstops : ((m.pull e).correct e).direction e = none ∨
            ((m.pull e).correct e).direction e = some .alreadyInSync
        · exact reconcile_stops hescrow hstops
        · obtain ⟨hnone, hinSync⟩ := not_or.mp hstops
          rw [reconcile_goes hescrow hnone hinSync, correct_pull, pull_pull, correct_correct]

end Mirror

/-! ## The operations on mirrors -/

/-- The roles under which an escrow names participants. -/
def participantRoles : List String := ["sender", "receiver", "approver"]

/-- Whoever the escrow names, it names by a text. -/
def NamesTexts (e : Value) : Prop :=
  ∀ role ∈ participantRoles, (e.field role).truthy = true → ∃ wallet, e.field role = .string wallet

/-- So it is with every escrow of the answers. -/
def Fetch.NamesTexts (fetch : Fetch) : Prop :=
  ∀ contractId, ThalosBackend.Agreements.NamesTexts (fetchTrustlessEscrow contractId fetch)

section Programs

variable {now : Timestamp} {agreementId contractId : String} {fetch : Fetch} {e : Value}
  {a : Agreement} {m : Mirror} {db db' : AgreementDb}

theorem mirrorAt_congr (h : db'.agreements = db.agreements) :
    db'.mirrorAt agreementId = db.mirrorAt agreementId := by
  rw [AgreementDb.mirrorAt, agreementAt_congr h, AgreementDb.mirrorAt]

theorem mirror_pullRow : (pullRow now e a).mirror = a.mirror.pull e := by
  unfold pullRow Mirror.pull
  change (if a.mirror.direction e = some .twToThalos then _ else _ : Agreement).mirror = _
  split <;> rfl

theorem escrow_eq_some : m.escrow fetch = some e ↔ ∃ contractId,
    nonEmpty m.contractId = some contractId ∧ e = fetchTrustlessEscrow contractId fetch ∧
      e.truthy = true := by
  rw [Mirror.escrow, Option.bind_eq_some_iff]
  constructor
  · rintro ⟨contractId, hcontract, h⟩
    split_ifs at h with htruthy
    cases h
    exact ⟨contractId, hcontract, rfl, htruthy⟩
  · rintro ⟨contractId, hcontract, rfl, htruthy⟩
    exact ⟨contractId, hcontract, if_pos htruthy⟩

theorem escrow_eq_none : m.escrow fetch = none ↔ ∀ contractId,
    nonEmpty m.contractId = some contractId →
      (fetchTrustlessEscrow contractId fetch).truthy = false := by
  rw [Mirror.escrow, Option.bind_eq_none_iff]
  simp

theorem namesUnreadable_of_texts (h : NamesTexts e) : namesUnreadable e = false := by
  rw [namesUnreadable, Bool.and_eq_false_iff]
  refine .inr (List.any_eq_false.mpr fun role hrole hthrows => ?_)
  rw [Bool.and_eq_true] at hthrows
  obtain ⟨wallet, hwallet⟩ := h role hrole hthrows.1
  rw [hwallet] at hthrows
  cases hthrows.2

/-- The end of `doSync` without an escrow. -/
theorem doSync_without_escrow (h : ∀ m, db.mirrorAt agreementId = some m → m.escrow fetch = none) :
    Ensures Answers (doSync now agreementId fetch) db fun out db' =>
      SameTables db db' ∧ db'.participants = db.participants ∧ ∃ result, out = .ok result ∧
        result.direction = none := by
  refine answered_getAgreement (fun a ha => ?_) fun _ e => ⟨.refl _, rfl, _, rfl, rfl⟩
  have hnone := escrow_eq_none.mp (h a.mirror (by rw [AgreementDb.mirrorAt, ha]; rfl))
  dsimp only
  split
  · exact ⟨.refl _, rfl, _, rfl, rfl⟩
  · rename_i contractId hcontract
    rw [hnone contractId hcontract, if_neg (by simp)]
    refine Calls.ensures_bind.mpr fun x db₁ hx => ⟨fun _ _ => ?_, fun _ he => by cases he⟩
    obtain ⟨-, rfl⟩ := hx
    exact ⟨⟨rfl, rfl, rfl, rfl⟩, rfl, _, rfl, rfl⟩

/-- `doSync` is `Mirror.sync`. -/
theorem doSync_mirror :
    Ensures Answers (doSync now agreementId fetch) db fun _ db' =>
      db'.mirrorAt agreementId = (db.mirrorAt agreementId).map (Mirror.sync fetch) := by
  cases hrow : db.agreementAt agreementId with
  | none =>
      have hmirror : db.mirrorAt agreementId = none := by rw [AgreementDb.mirrorAt, hrow]; rfl
      refine (doSync_without_escrow fun m hm => ?_).mono fun out db' ⟨hsame, _⟩ => ?_
      · rw [hmirror] at hm
        cases hm
      · rw [mirrorAt_congr hsame.agreements, hmirror]
        rfl
  | some a =>
      have hmirror : db.mirrorAt agreementId = some a.mirror := by
        rw [AgreementDb.mirrorAt, hrow]
        rfl
      rw [hmirror, Option.map_some, Mirror.sync]
      cases hescrow : a.mirror.escrow fetch with
      | none =>
          refine (doSync_without_escrow fun m hm => ?_).mono fun out db' ⟨hsame, _⟩ => ?_
          · rw [hmirror] at hm
            cases hm
            exact hescrow
          · rw [mirrorAt_congr hsame.agreements, hmirror]
      | some e =>
          obtain ⟨contractId, hcontract, rfl, htruthy⟩ := escrow_eq_some.mp hescrow
          refine (doSync_end hrow hcontract htruthy).mono fun out db' ⟨hrow', _⟩ => ?_
          rw [AgreementDb.mirrorAt, hrow', Option.map_some, mirror_pullRow]

/-- The second part of `doReconcile` is `Mirror.correct`. -/
theorem correctMilestones_mirror (hm : db.mirrorAt agreementId = some m)
    (he : m.escrow fetch = some e) :
    Ensures Answers (correctMilestones now agreementId fetch) db fun _ db' =>
      db'.mirrorAt agreementId = some (m.correct e) := by
  obtain ⟨contractId, hcontract, rfl, htruthy⟩ := escrow_eq_some.mp he
  have hescrow := htruthy
  refine answered_getAgreement (fun a ha => ?_) fun hnone => ?_
  swap
  · rw [AgreementDb.mirrorAt, hnone] at hm
    cases hm
  obtain rfl : a.mirror = m := by
    rw [AgreementDb.mirrorAt, ha] at hm
    exact Option.some.inj hm
  change nonEmpty a.contractId = _ at hcontract
  simp only [hcontract, htruthy, Bool.not_true, Bool.false_eq_true, if_false]
  cases hmilestones : ((fetchTrustlessEscrow contractId fetch).field "milestones").truthy with
  | false =>
      have hcorrect : a.mirror.correct (fetchTrustlessEscrow contractId fetch) = a.mirror := by
        unfold Mirror.correct
        rw [correctedMilestones_of_falsy hmilestones]
        split <;> rfl
      rw [hcorrect]
      refine answered_logSyncActivity fun db' hsame => ?_
      exact (mirrorAt_congr hsame.agreements).trans hm
  | true =>
      have hend := reconcileMilestones_end a.milestones hmilestones
      refine Calls.ensures_bind.mpr (Calls.ensures_ofExcept.mpr ?_)
      split at hend
      · rename_i hreads
        rw [hend]
        refine ⟨fun milestones hok => ?_, fun _ he => by cases he⟩
        cases hok
        refine Calls.ensures_ask fun x db₁ hx => ?_
        obtain ⟨-, rfl⟩ := hx
        refine answered_logSyncActivity fun db' hsame => (mirrorAt_congr hsame.agreements).trans ?_
        rw [AgreementDb.mirrorAt, agreementAt_updateAgreements _ ha]
        exact congrArg some (if_pos hreads).symm
      · -- an entry that cannot be read stops the loop before it writes
        rename_i hthrows
        obtain ⟨e, he⟩ := hend
        rw [he]
        refine ⟨fun _ hok => (by cases hok), fun _ _ => hm.trans ?_⟩
        exact congrArg some (if_neg hthrows).symm

/-- Without an escrow it changes nothing. -/
theorem correctMilestones_without_escrow
    (h : ∀ m, db.mirrorAt agreementId = some m → m.escrow fetch = none) :
    Ensures Answers (correctMilestones now agreementId fetch) db fun _ db' => db' = db := by
  refine answered_getAgreement (fun a ha => ?_) fun _ e => rfl
  have hnone := escrow_eq_none.mp (h a.mirror (by rw [AgreementDb.mirrorAt, ha]; rfl))
  dsimp only
  split
  · rfl
  · rename_i contractId hcontract
    rw [hnone contractId hcontract]
    rfl

/-- Without an escrow nothing is reconciled. -/
theorem doReconcile_without_escrow
    (h : ∀ m, db.mirrorAt agreementId = some m → m.escrow fetch = none) :
    Ensures Answers (doReconcile now agreementId fetch fetch) db fun _ db' =>
      db'.mirrorAt agreementId = db.mirrorAt agreementId := by
  refine Calls.ensures_bind.mpr ?_
  refine (doSync_without_escrow h).mono fun out db₁ ⟨hsame, _, result, hout, hdirection⟩ => ?_
  have hmirror : db₁.mirrorAt agreementId = db.mirrorAt agreementId :=
    mirrorAt_congr hsame.agreements
  refine ⟨fun _ hok => ?_, fun _ herror => by rw [hout] at herror; cases herror⟩
  obtain rfl := Except.ok.inj (hout.symm.trans hok)
  rw [if_neg (by simp [hdirection])]
  split
  · exact hmirror
  · refine Calls.ensures_bind.mpr ((correctMilestones_without_escrow ?_).mono fun out' db₂ h₂ => ?_)
    · rw [hmirror]
      exact h
    · subst h₂
      exact ⟨fun _ _ => hmirror, fun _ _ => hmirror⟩

/-- What `doSync` reports is read off the mirrored columns. -/
theorem syncReport_mirror (hnames : NamesTexts e) (a : Agreement) :
    syncReport e a = a.mirror.direction e := by
  change syncReport e a = directionOf e a
  unfold syncReport
  rw [namesUnreadable_of_texts hnames]
  cases directionOf e a with
  | none => rfl
  | some direction => simp

/-- `doReconcile`, both times with the same answers, is `Mirror.reconcile`. -/
theorem doReconcile_mirror (hnames : fetch.NamesTexts) :
    Ensures Answers (doReconcile now agreementId fetch fetch) db fun _ db' =>
      db'.mirrorAt agreementId = (db.mirrorAt agreementId).map (Mirror.reconcile fetch) := by
  by_cases hnone : ∀ m, db.mirrorAt agreementId = some m → m.escrow fetch = none
  · have hmap : (db.mirrorAt agreementId).map (Mirror.reconcile fetch) = db.mirrorAt agreementId := by
      cases hm : db.mirrorAt agreementId with
      | none => rfl
      | some m => rw [Option.map_some, Mirror.reconcile, hnone m hm]
    rw [hmap]
    exact doReconcile_without_escrow hnone
  · push Not at hnone
    obtain ⟨m, hm, hescrow⟩ := hnone
    obtain ⟨e, he⟩ := Option.ne_none_iff_exists'.mp hescrow
    obtain ⟨contractId, hcontract, rfl, htruthy⟩ := escrow_eq_some.mp he
    obtain ⟨a, ha, rfl⟩ := Option.map_eq_some_iff.mp hm
    rw [hm, Option.map_some]
    refine Calls.ensures_bind.mpr ?_
    refine (doSync_end ha hcontract htruthy).mono ?_
    rintro out db₁ ⟨hrow, hend⟩
    have hmirror : db₁.mirrorAt agreementId =
        some (a.mirror.pull (fetchTrustlessEscrow contractId fetch)) := by
      rw [AgreementDb.mirrorAt, hrow, Option.map_some, mirror_pullRow]
    rw [SyncEnd, syncReport_mirror (hnames contractId)] at hend
    cases hdirection : a.mirror.direction (fetchTrustlessEscrow contractId fetch) with
    | none =>
        -- the statuses cannot be compared, and the request ends here
        rw [hdirection] at hend
        obtain ⟨error, rfl⟩ := hend
        rw [Mirror.pull_of_ne (by simp [hdirection])] at hmirror
        rw [Mirror.reconcile_stops he (.inl hdirection)]
        exact ⟨fun _ hok => (by cases hok), fun _ _ => hmirror⟩
    -- it goes on to the milestones unless the statuses agree
    | some direction =>
        rw [hdirection] at hend
        obtain ⟨result, rfl, hsync⟩ := hend
        refine ⟨fun _ hok => ?_, fun _ herror => by cases herror⟩
        cases hok
        by_cases hinSync : direction = .alreadyInSync
        · subst hinSync
          rw [if_pos hsync.direction, Mirror.reconcile_stops he (.inr hdirection)]
          rw [Mirror.pull_of_ne (by simp [hdirection])] at hmirror
          exact hmirror
        · rw [if_neg (by simp [hsync.direction, hinSync]), if_neg (by simp [hsync.synced]),
            Mirror.reconcile_goes he (by simp [hdirection]) (by simp [hdirection, hinSync])]
          have hescrow₁ : (a.mirror.pull (fetchTrustlessEscrow contractId fetch)).escrow fetch =
              some (fetchTrustlessEscrow contractId fetch) :=
            (Mirror.escrow_congr Mirror.pull_contractId).trans he
          refine Calls.ensures_bind.mpr ((correctMilestones_mirror hmirror hescrow₁).mono ?_)
          intro out' db₂ hcorrected
          exact ⟨fun _ _ => hcorrected, fun _ _ => hcorrected⟩

end Programs

/-! ## Participants -/

/-- What `syncParticipants` compares. -/
def Participant.key (p : Participant) : String := p.walletAddress ++ ":" ++ p.role

/-- The rows for a role: the named wallet, unless its key is there. -/
def namedRows (agreementId : String) (existing : List Participant) (e : Value) (role : String) :
    List Participant :=
  match e.field role with
  | .string wallet =>
    if wallet = "" ∨ ∃ p ∈ existing, p.key = wallet ++ ":" ++ role then []
    else [⟨agreementId, wallet, role⟩]
  | _ => []

/-- Everybody the escrow names is a participant, as far as the keys tell. -/
def Named (agreementId : String) (e : Value) (participants : List Participant) : Prop :=
  ∀ role ∈ participantRoles, ∀ wallet, e.field role = .string wallet → wallet ≠ "" →
    ∃ p ∈ participants, p.agreementId = agreementId ∧ p.key = wallet ++ ":" ++ role

/-- Participants were added, each once, and none that was there. -/
def Adds (before after new : List Participant) : Prop :=
  after = before ++ new ∧ new.Nodup ∧ ∀ p ∈ new, p ∉ before

section Participants

variable {now : Timestamp} {agreementId contractId role : String} {fetch : Fetch} {e : Value}
  {a : Agreement} {m : Mirror} {db db' : AgreementDb} {existing : List Participant} {p : Participant}

theorem Adds.refl (participants : List Participant) : Adds participants participants [] :=
  ⟨(List.append_nil _).symm, List.nodup_nil, nofun⟩

theorem namedParticipant_eq (h : NamesTexts e) (hrole : role ∈ participantRoles) :
    namedParticipant agreementId existing e role = .ok (namedRows agreementId existing e role) := by
  cases htruthy : (e.field role).truthy with
  | false =>
      have hnobody : namedParticipant agreementId existing e role = .ok [] := by
        simp [namedParticipant, htruthy]
      rw [hnobody, namedRows]
      split
      · rename_i wallet hwallet
        rw [hwallet] at htruthy
        have hempty : wallet = "" := by simpa [Value.truthy] using htruthy
        rw [if_pos (.inl hempty)]
      · rfl
  | true =>
      obtain ⟨wallet, hwallet⟩ := h role hrole htruthy
      rw [hwallet] at htruthy
      have hne : wallet ≠ "" := by simpa [Value.truthy] using htruthy
      rw [namedParticipant, namedRows, hwallet]
      by_cases hthere : ∃ p ∈ existing, p.walletAddress ++ ":" ++ p.role = wallet ++ ":" ++ role
      · simp [htruthy, Value.toText, Participant.key, hthere]
      · simp [htruthy, Value.toText, columnValue, hne, Participant.key, hthere]

theorem mem_namedRows (h : p ∈ namedRows agreementId existing e role) :
    p.agreementId = agreementId ∧ p.role = role ∧ p ∉ existing := by
  unfold namedRows at h
  split at h
  · split_ifs at h with hthere
    · cases h
    · obtain rfl := List.mem_singleton.mp h
      exact ⟨rfl, rfl, fun hmem => hthere (.inr ⟨_, hmem, rfl⟩)⟩
  · cases h

/-- A role has at most one row. -/
theorem map_role_namedRows :
    ((namedRows agreementId existing e role).map Participant.role).Sublist [role] := by
  unfold namedRows
  split
  · split_ifs
    · exact List.nil_sublist _
    · exact .refl _
  · exact List.nil_sublist _

variable (agreementId existing) in
/-- After the insert the key is there. -/
theorem key_of_namedRows {wallet : String} (hwallet : e.field role = .string wallet)
    (hne : wallet ≠ "") : ∃ p ∈ existing ++ namedRows agreementId existing e role,
      p.key = wallet ++ ":" ++ role := by
  unfold namedRows
  rw [hwallet]
  dsimp only
  split_ifs with hthere
  · obtain ⟨p, hp, hkey⟩ := hthere.resolve_left hne
    exact ⟨p, List.mem_append_left _ hp, hkey⟩
  · exact ⟨⟨agreementId, wallet, role⟩, by simp, rfl⟩

/-- The rows of one insert. -/
def namedParticipants (agreementId : String) (existing : List Participant) (e : Value) :
    List Participant :=
  namedRows agreementId existing e "sender" ++ namedRows agreementId existing e "receiver" ++
    namedRows agreementId existing e "approver"

theorem mem_namedParticipants : p ∈ namedParticipants agreementId existing e ↔
    ∃ role ∈ participantRoles, p ∈ namedRows agreementId existing e role := by
  simp [namedParticipants, participantRoles]

theorem nodup_namedParticipants : (namedParticipants agreementId existing e).Nodup := by
  have hroles : ((namedParticipants agreementId existing e).map Participant.role).Sublist
      participantRoles := by
    rw [namedParticipants, List.map_append, List.map_append]
    exact (map_role_namedRows.append map_role_namedRows).append map_role_namedRows
  have hnodup : participantRoles.Nodup := by decide
  exact (hnodup.sublist hroles).of_map _

/-- Who is missing is added, and then nobody is. -/
def Completes (agreementId : String) (e : Value) (before after : List Participant) : Prop :=
  ∃ new, Adds before after new ∧ (Named agreementId e before → new = []) ∧ Named agreementId e after

/-- `syncParticipants` adds who is missing. -/
theorem syncParticipants_completes (h : NamesTexts e) :
    Ensures Answers (syncParticipants agreementId e) db fun out db' =>
      out = .ok () ∧ Completes agreementId e db.participants db'.participants := by
  refine Calls.ensures_ask fun x db₁ hx => ?_
  obtain ⟨⟨existing, rfl, hperm⟩, rfl⟩ := hx
  have hmem (p : Participant) : p ∈ existing ↔ p ∈ db₁.participants ∧ p.agreementId = agreementId := by
    rw [hperm.mem_iff, List.mem_filter, decide_eq_true_eq]
  -- what is inserted completes the table, whether or not anything is
  have hnew : Completes agreementId e db₁.participants
      (db₁.participants ++ namedParticipants agreementId existing e) := by
    refine ⟨_, ⟨rfl, nodup_namedParticipants, fun p hp hthere => ?_⟩, fun hnamed => ?_, ?_⟩
    · obtain ⟨role, -, hp⟩ := mem_namedParticipants.mp hp
      obtain ⟨hid, -, hfresh⟩ := mem_namedRows hp
      exact hfresh ((hmem p).mpr ⟨hthere, hid⟩)
    · refine List.eq_nil_iff_forall_not_mem.mpr fun p hp => ?_
      obtain ⟨role, hrole, hp⟩ := mem_namedParticipants.mp hp
      unfold namedRows at hp
      split at hp
      · rename_i wallet hwallet
        split_ifs at hp with hthere
        · cases hp
        · obtain ⟨hne, hno⟩ := not_or.mp hthere
          obtain ⟨q, hq, hid, hkey⟩ := hnamed role hrole wallet hwallet hne
          exact hno ⟨q, (hmem q).mpr ⟨hq, hid⟩, hkey⟩
      · cases hp
    · intro role hrole wallet hwallet hne
      obtain ⟨p, hp, hkey⟩ := key_of_namedRows agreementId existing hwallet hne
      rcases List.mem_append.mp hp with hp | hp
      · obtain ⟨hp, hid⟩ := (hmem p).mp hp
        exact ⟨p, List.mem_append_left _ hp, hid, hkey⟩
      · exact ⟨p, List.mem_append_right _ (mem_namedParticipants.mpr ⟨role, hrole, hp⟩),
          (mem_namedRows hp).1, hkey⟩
  dsimp only
  rw [namedParticipant_eq h (by simp [participantRoles]),
    namedParticipant_eq h (by simp [participantRoles]),
    namedParticipant_eq h (by simp [participantRoles])]
  change Ensures Answers (if (namedParticipants agreementId existing e).isEmpty then _ else _) db₁ _
  split_ifs with hnobody
  · rw [List.isEmpty_iff.mp hnobody, List.append_nil] at hnew
    exact ⟨rfl, hnew⟩
  · refine Calls.ensures_ask fun x db₂ hx => ?_
    obtain ⟨-, rfl⟩ := hx
    exact ⟨rfl, hnew⟩

/-- A pull with this escrow syncs participants. -/
def Mirror.pullsNames (e : Value) (m : Mirror) : Prop :=
  m.direction e = some .twToThalos ∧
    ((e.field "sender").truthy = true ∨ (e.field "receiver").truthy = true)

/-- What a sync with this escrow does to the participants. -/
def SyncsNames (agreementId : String) (e : Value) (m : Mirror) (before after : List Participant) :
    Prop :=
  (m.pullsNames e → Completes agreementId e before after) ∧ (¬ m.pullsNames e → after = before)

theorem answered_sync_log {α : Type} {action : String} {details : List (String × Value)}
    {f : Unit → AgreementProgram α} {Q : Except HttpException α → AgreementDb → Prop}
    (h : ∀ db', db'.participants = db.participants → Ensures Answers (f ()) db' Q) :
    Ensures Answers (logSyncActivity now agreementId action details >>= f) db Q := by
  refine Calls.ensures_bind.mpr fun x db' hx => ⟨fun _ _ => h db' ?_, fun e he => by cases he⟩
  obtain ⟨-, rfl⟩ := hx
  rfl

theorem syncWith_names (h : NamesTexts e) :
    Ensures Answers (syncWith now a contractId e) db fun _ db' =>
      SyncsNames a.id e a.mirror db.participants db'.participants := by
  have hstays : a.mirror.direction e ≠ some .twToThalos → ∀ after : List Participant,
      after = db.participants → SyncsNames a.id e a.mirror db.participants after :=
    fun hne after hafter => ⟨fun hpulls => absurd hpulls.1 hne, fun _ => hafter⟩
  cases htext : (e.field "status").toText with
  | none =>
      simp only [syncWith, htext]
      refine hstays ?_ _ rfl
      simp [Mirror.direction, mappedStatus, htext]
  | some text =>
      have hdirection : a.mirror.direction e = some (syncDirection (a.status.getD "pending")
          (twToThalosStatus text (e.field "status"))) := by
        simp [Mirror.direction, mappedStatus, htext, Agreement.mirror]
      simp only [syncWith, htext]
      cases hside : syncDirection (a.status.getD "pending")
          (twToThalosStatus text (e.field "status")) with
      | alreadyInSync =>
          -- nothing is taken over, so the participants are not read
          rw [hside] at hdirection
          exact answered_sync_log fun db' hsame => hstays (by simp [hdirection]) _ hsame
      | thalosToTw =>
          rw [hside] at hdirection
          exact answered_sync_log fun db' hsame => hstays (by simp [hdirection]) _ hsame
      | twToThalos =>
          rw [hside] at hdirection
          refine Calls.ensures_ask fun x db₁ hx => ?_
          obtain ⟨rfl, rfl⟩ := hx
          dsimp only
          split
          · rename_i hnamed
            refine Calls.ensures_bind.mpr ((syncParticipants_completes h).mono ?_)
            rintro out db₂ ⟨rfl, hcompletes⟩
            refine ⟨fun _ _ => ?_, fun _ he => by cases he⟩
            refine answered_sync_log fun db₃ hsame => ⟨fun _ => ?_, fun hno => ?_⟩
            · rw [hsame]
              exact hcompletes
            · exact absurd ⟨hdirection, hnamed⟩ hno
          · rename_i hunnamed
            refine answered_sync_log fun db₂ hsame => ⟨fun hpulls => ?_, fun _ => hsame⟩
            exact absurd hpulls.2 hunnamed

/-- The escrow of the agreement syncs its participants, or nobody's are. -/
def ParticipantsSynced (fetch : Fetch) (agreementId : String) (db db' : AgreementDb) : Prop :=
  match (db.mirrorAt agreementId).bind fun m => (m.escrow fetch).map fun e => (e, m) with
  | none => db'.participants = db.participants
  | some (e, m) => SyncsNames agreementId e m db.participants db'.participants

theorem doSync_participants (hnames : fetch.NamesTexts) :
    Ensures Answers (doSync now agreementId fetch) db fun _ db' =>
      ParticipantsSynced fetch agreementId db db' := by
  unfold ParticipantsSynced
  split
  · rename_i hnone
    refine (doSync_without_escrow fun m hm => ?_).mono fun out db' ⟨_, hsame, _⟩ => hsame
    rw [hm] at hnone
    simpa using hnone
  · rename_i e m hsome
    obtain ⟨m', hm, hescrow⟩ := Option.bind_eq_some_iff.mp hsome
    obtain ⟨e', he, heq⟩ := Option.map_eq_some_iff.mp hescrow
    cases heq
    obtain ⟨contractId, hcontract, rfl, htruthy⟩ := escrow_eq_some.mp he
    refine answered_getAgreement (fun a ha => ?_) fun hnone => ?_
    · obtain rfl : a.mirror = m := by
        rw [AgreementDb.mirrorAt, ha] at hm
        exact Option.some.inj hm
      obtain ⟨-, rfl⟩ := mem_of_agreementAt ha
      change nonEmpty a.contractId = _ at hcontract
      simp only [hcontract, htruthy, if_true]
      exact syncWith_names (hnames contractId)
    · rw [AgreementDb.mirrorAt, hnone] at hm
      cases hm

/-- The second part of `doReconcile` adds nobody. -/
theorem correctMilestones_participants :
    Ensures Answers (correctMilestones now agreementId fetch) db fun _ db' =>
      db'.participants = db.participants := by
  refine Calls.ensures_ask fun x db₁ hx => ?_
  obtain ⟨-, rfl⟩ := hx
  split
  · rfl
  split
  · rfl
  dsimp only
  split_ifs
  · rfl
  · refine Calls.ensures_bind.mpr (Calls.ensures_ofExcept.mpr ⟨fun milestones _ => ?_, fun _ _ => rfl⟩)
    refine Calls.ensures_ask fun x db₂ hx => ?_
    obtain ⟨-, rfl⟩ := hx
    exact answered_sync_log fun db₃ hsame => hsame
  · exact answered_sync_log fun db₂ hsame => hsame

theorem doReconcile_participants (hnames : fetch.NamesTexts) :
    Ensures Answers (doReconcile now agreementId fetch fetch) db fun _ db' =>
      ParticipantsSynced fetch agreementId db db' := by
  refine Calls.ensures_bind.mpr ((doSync_participants hnames).mono fun out db₁ hsynced => ?_)
  refine ⟨fun result _ => ?_, fun _ _ => hsynced⟩
  split_ifs
  · exact hsynced
  · exact hsynced
  · refine Calls.ensures_bind.mpr (correctMilestones_participants.mono fun out' db₂ hsame => ?_)
    unfold ParticipantsSynced at hsynced ⊢
    rw [← hsame] at hsynced
    exact ⟨fun _ _ => hsynced, fun _ _ => hsynced⟩

/-- What was added was not there. -/
theorem ParticipantsSynced.adds (h : ParticipantsSynced fetch agreementId db db') :
    ∃ new, Adds db.participants db'.participants new := by
  unfold ParticipantsSynced at h
  split at h
  · rw [h]
    exact ⟨[], .refl _⟩
  · rename_i e m _
    by_cases hpulls : m.pullsNames e
    · obtain ⟨new, hadds, -⟩ := h.1 hpulls
      exact ⟨new, hadds⟩
    · rw [h.2 hpulls]
      exact ⟨[], .refl _⟩

/-- Who pulls names again has done so before, and finds them. -/
theorem ParticipantsSynced.again {db₁ db₂ : AgreementDb} {f : Mirror → Mirror}
    (h : ParticipantsSynced fetch agreementId db db₁)
    (h' : ParticipantsSynced fetch agreementId db₁ db₂)
    (hmirror : db₁.mirrorAt agreementId = (db.mirrorAt agreementId).map f)
    (hcontract : ∀ m : Mirror, (f m).contractId = m.contractId)
    (hpull : ∀ m e, m.escrow fetch = some e → (f m).direction e = some .twToThalos →
      m.direction e = some .twToThalos) : db₂.participants = db₁.participants := by
  unfold ParticipantsSynced at h h'
  cases hm : db.mirrorAt agreementId with
  | none =>
      rw [hm] at hmirror
      rw [hmirror] at h'
      exact h'
  | some m =>
      rw [hm] at hmirror h
      rw [hmirror] at h'
      have hescrow : (f m).escrow fetch = m.escrow fetch := Mirror.escrow_congr (hcontract m)
      simp only [Option.map_some, Option.bind_some, hescrow] at h h'
      cases he : m.escrow fetch with
      | none =>
          rw [he] at h'
          exact h'
      | some e =>
          rw [he] at h h'
          simp only [Option.map_some] at h h'
          by_cases hpulls : (f m).pullsNames e
          · obtain ⟨_, _, _, hnamed⟩ := h.1 ⟨hpull m e he hpulls.1, hpulls.2⟩
            obtain ⟨new, ⟨hrows, -⟩, hnobody, -⟩ := h'.1 hpulls
            rw [hrows, hnobody hnamed, List.append_nil]
          · exact h'.2 hpulls

end Participants

/-! ## The result -/

/-- The two operations. -/
inductive SyncOperation where
  | sync
  | reconcile

/-- An operation at a time, with what Trustless Work answers whenever it is asked. -/
def SyncOperation.program (now : Timestamp) (agreementId : String) (fetch : Fetch) :
    SyncOperation → AgreementProgram Unit
  | .sync => do
    let _ ← doSync now agreementId fetch
    return ()
  | .reconcile => do
    let _ ← doReconcile now agreementId fetch fetch
    return ()

/-- What it does to a mirror. -/
def SyncOperation.onMirror (fetch : Fetch) : SyncOperation → Mirror → Mirror
  | .sync => Mirror.sync fetch
  | .reconcile => Mirror.reconcile fetch

section Twice

variable {op : SyncOperation} {fetch : Fetch} {agreementId : String} {now : Timestamp}
  {db db' : AgreementDb} {out : Except HttpException Unit} {m : Mirror} {e : Value}

theorem SyncOperation.synced (hnames : fetch.NamesTexts)
    (h : Runs Answers (op.program now agreementId fetch) db out db') :
    db'.mirrorAt agreementId = (db.mirrorAt agreementId).map (op.onMirror fetch) ∧
      ParticipantsSynced fetch agreementId db db' := by
  suffices hall : Ensures Answers (op.program now agreementId fetch) db fun _ db' =>
      db'.mirrorAt agreementId = (db.mirrorAt agreementId).map (op.onMirror fetch) ∧
        ParticipantsSynced fetch agreementId db db' from
    Calls.ensures_iff.mp hall out db' h
  cases op with
  | sync =>
      refine Calls.ensures_bind.mpr ((doSync_mirror.and (doSync_participants hnames)).mono ?_)
      exact fun _ _ hend => ⟨fun _ _ => hend, fun _ _ => hend⟩
  | reconcile =>
      refine Calls.ensures_bind.mpr
        (((doReconcile_mirror hnames).and (doReconcile_participants hnames)).mono ?_)
      exact fun _ _ hend => ⟨fun _ _ => hend, fun _ _ => hend⟩

theorem SyncOperation.onMirror_contractId (m : Mirror) :
    (op.onMirror fetch m).contractId = m.contractId := by
  cases op with
  | sync => exact Mirror.sync_contractId
  | reconcile => exact Mirror.reconcile_contractId

theorem SyncOperation.onMirror_twice (m : Mirror) :
    op.onMirror fetch (op.onMirror fetch m) = op.onMirror fetch m := by
  cases op with
  | sync => exact Mirror.sync_sync
  | reconcile => exact Mirror.reconcile_reconcile

/-- An operation after which there is something to pull has pulled. -/
theorem SyncOperation.direction_onMirror (he : m.escrow fetch = some e)
    (h : (op.onMirror fetch m).direction e = some .twToThalos) :
    m.direction e = some .twToThalos := by
  cases op with
  | sync =>
      change (m.sync fetch).direction e = _ at h
      rw [Mirror.sync, he] at h
      exact Mirror.direction_of_pull h
  | reconcile =>
      change (m.reconcile fetch).direction e = _ at h
      by_cases hstops : m.direction e = none ∨ m.direction e = some .alreadyInSync
      · rw [Mirror.reconcile_stops he hstops] at h
        exact h
      · obtain ⟨hnone, hinSync⟩ := not_or.mp hstops
        rw [Mirror.reconcile_goes he hnone hinSync,
          Mirror.direction_congr Mirror.correct_status] at h
        exact Mirror.direction_of_pull h

end Twice

/-- **Syncing twice.** A second `doSync` or `doReconcile` with the same answers changes neither the status
of the agreement nor a milestone, and no participants; and the first adds nobody who was there. -/
theorem sync_idempotent (op : SyncOperation) (agreementId : String) (fetch : Fetch)
    (hnames : fetch.NamesTexts) {now₁ now₂ : Timestamp} {db db₁ db₂ : AgreementDb}
    {out₁ out₂ : Except HttpException Unit}
    (h₁ : Runs Answers (op.program now₁ agreementId fetch) db out₁ db₁)
    (h₂ : Runs Answers (op.program now₂ agreementId fetch) db₁ out₂ db₂) :
    ((db₂.agreementAt agreementId).map fun a => (a.status, a.milestones)) =
        ((db₁.agreementAt agreementId).map fun a => (a.status, a.milestones)) ∧
      db₂.participants = db₁.participants ∧
      ∃ new, db₁.participants = db.participants ++ new ∧ new.Nodup ∧
        ∀ p ∈ new, p ∉ db.participants := by
  obtain ⟨hmirror₁, hparticipants₁⟩ := SyncOperation.synced hnames h₁
  obtain ⟨hmirror₂, hparticipants₂⟩ := SyncOperation.synced hnames h₂
  refine ⟨?_, ?_, hparticipants₁.adds⟩
  · have hsame : db₂.mirrorAt agreementId = db₁.mirrorAt agreementId := by
      rw [hmirror₂, hmirror₁, Option.map_map]
      refine congrArg (fun f => Option.map f _) (funext fun m => ?_)
      exact SyncOperation.onMirror_twice m
    have hfields := congrArg (Option.map fun m : Mirror => (m.status, m.milestones)) hsame
    rw [AgreementDb.mirrorAt, AgreementDb.mirrorAt, Option.map_map, Option.map_map] at hfields
    exact hfields
  · exact hparticipants₁.again hparticipants₂ hmirror₁ SyncOperation.onMirror_contractId
      fun m e he hpull => SyncOperation.direction_onMirror he hpull

/-- What Trustless Work answers about a funded escrow with a sender. -/
def fetchFunded : Fetch :=
  answered (.object [("id", .string "C"), ("status", .string "funded"), ("sender", .string "P"),
    ("milestones", .array [])])

theorem fetchFunded_namesTexts : fetchFunded.NamesTexts := by
  intro contractId role hrole htruthy
  have hescrow : fetchTrustlessEscrow contractId fetchFunded = .object [("id", .string "C"),
      ("status", .string "funded"), ("sender", .string "P"), ("milestones", .array [])] := rfl
  rw [hescrow] at htruthy ⊢
  simp only [participantRoles, List.mem_cons, List.not_mem_nil, or_false] at hrole
  rcases hrole with rfl | rfl | rfl
  · exact ⟨"P", rfl⟩
  · cases htruthy
  · cases htruthy

/-- Reconcile an agreement with this escrow. -/
def reconciledFunded (now : Timestamp) (db : AgreementDb) : Except HttpException Unit × AgreementDb :=
  Calls.run (fun c db => AgreementDb.answer c db)
    (SyncOperation.reconcile.program now "a" fetchFunded) db

/-- The sender is added once. -/
theorem sync_idempotent_funded :
    (reconciledFunded 2 (reconciledFunded 1 (storeWith twoParties [agreementIn .pending] [])).2).2.participants =
        (reconciledFunded 1 (storeWith twoParties [agreementIn .pending] [])).2.participants := by
  have hruns (now : Timestamp) (db : AgreementDb) :
      Runs Answers (SyncOperation.reconcile.program now "a" fetchFunded) db
        (reconciledFunded now db).1 (reconciledFunded now db).2 :=
    Calls.runs_run (fun c db => db.answers_answer c) _ _
  exact (sync_idempotent .reconcile "a" fetchFunded fetchFunded_namesTexts (hruns 1 _)
    (hruns 2 _)).2.1

end ThalosBackend.Agreements
