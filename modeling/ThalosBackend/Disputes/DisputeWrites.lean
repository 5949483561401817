import ThalosBackend.Agreements.AnsweredQueries
import ThalosBackend.Agreements.Interleaving
import ThalosBackend.Disputes.DisputesService

/-!
# What a request is about to write in the disputes

`openDispute`, `resolveDispute` and `cancelDispute` look at the disputes and write them with the next
query; a resolution is stored with two. `aboutToWrite` reads off a request in progress what it is about
to write, `Ready` what it has looked at for that, and `Holds` what it must still find in the tables.

Two such writes conflict when one takes away what the other has looked at: two disputes of one
agreement, or a resolution and another write of the same dispute. A write that does not conflict with
another one leaves to it what it must find.
-/

set_option autoImplicit false

namespace ThalosBackend.Disputes

open Wallets (Reply)
open Agreements

/-! ## Writes -/

/-- A write of the disputes or of their resolutions. -/
inductive DisputeWrite where
  | opens (agreementId : String)
  /-- The resolution is stored, … -/
  | resolves (disputeId : String)
  /-- … and then its dispute becomes resolved. -/
  | marks (disputeId : String)
  | cancels (disputeId : String)
  deriving DecidableEq

/-- The dispute whose resolution a query has stored. -/
def storedResolution : (c : AgreementCall) × c.reply → Option String
  | ⟨.insertResolution new, .ok _⟩ => some new.disputeId
  | _ => none

/-- The dispute a query has cancelled. -/
def storedCancellation : (c : AgreementCall) × c.reply → Option String
  | ⟨.updateDispute disputeId updates, .ok _⟩ =>
    if updates.status = .cancelled then some disputeId else none
  | _ => none

/-- The dispute whose resolution the last query has stored. -/
def lastResolved : QueryHistory → Option String
  | last :: _ => storedResolution last
  | [] => none

/-- What a query writes, unless a resolution has just been stored. -/
def disputeWrite : AgreementCall → Option DisputeWrite
  | .insertDispute new => some (.opens new.agreementId)
  | .insertResolution new => some (.resolves new.disputeId)
  | .updateDispute disputeId _ => some (.cancels disputeId)
  | _ => none

/-- What a request in progress is about to write. -/
def aboutToWrite (rest : TracedProgram) : Option DisputeWrite :=
  match lastResolved (Calls.historyOf rest) with
  | some disputeId => some (.marks disputeId)
  | none => match rest with
    | .call (c, _) _ => disputeWrite c
    | _ => none

theorem aboutToWrite_of_last {c : AgreementCall} {history : QueryHistory}
    {cont : c.reply → TracedProgram} {disputeId : String}
    (h : lastResolved history = some disputeId) :
    aboutToWrite (.call (c, history) cont) = some (.marks disputeId) := by
  simp only [aboutToWrite, Calls.historyOf, h]

theorem aboutToWrite_of_next {c : AgreementCall} {history : QueryHistory}
    (h : lastResolved history = none) (cont : c.reply → TracedProgram) :
    aboutToWrite (.call (c, history) cont) = disputeWrite c := by
  simp only [aboutToWrite, Calls.historyOf, h]

/-- A mark comes right after its resolution. -/
theorem aboutToWrite_marks {rest : TracedProgram} {disputeId : String} :
    aboutToWrite rest = some (.marks disputeId) ↔
      lastResolved (Calls.historyOf rest) = some disputeId := by
  cases hlast : lastResolved (Calls.historyOf rest) with
  | some id => simp [aboutToWrite, hlast]
  | none =>
      simp only [aboutToWrite, hlast]
      cases rest with
      | done out => simp
      | fail e => simp
      | call c cont =>
          obtain ⟨c, history⟩ := c
          cases c <;> simp [disputeWrite]

/-- The dispute is there, with this status. -/
abbrev DisputeIs (db : AgreementDb) (disputeId : String) (status : DisputeStatus) : Prop :=
  Table.At Dispute.id disputeId (fun d => d.status = status) db.disputes

namespace DisputeWrite

/-- What a request has looked at before it writes. -/
def Ready : DisputeWrite → QueryHistory → Prop
  | .opens agreementId, history => ∃ x before,
      history = ⟨.findLiveDispute agreementId, x⟩ :: before ∧ Reply.data x = none
  | .resolves disputeId, history | .cancels disputeId, history => ∃ x before d,
      history = ⟨.findDispute disputeId, x⟩ :: before ∧ Reply.data x = some d ∧ d.status ≠ .resolved
  | .marks disputeId, history => lastResolved history = some disputeId

/-- What it must still find in the tables. -/
def Holds (db : AgreementDb) : DisputeWrite → Prop
  | .opens agreementId => db.liveDisputes agreementId = []
  | .resolves disputeId | .cancels disputeId =>
      Table.At Dispute.id disputeId (fun d => d.status ≠ .resolved) db.disputes
  | .marks disputeId => Table.At Dispute.id disputeId (fun _ => True) db.disputes

/-- The write resolves the dispute, or is half of it. -/
def isResolution (disputeId : String) : DisputeWrite → Bool
  | .resolves id | .marks id => id = disputeId
  | _ => false

/-- One of the writes takes away what the other has looked at. -/
def conflicts : DisputeWrite → DisputeWrite → Bool
  | .opens agreementId, .opens other => agreementId = other
  | .resolves disputeId, w | .marks disputeId, w => w.isResolution disputeId || w = .cancels disputeId
  | .cancels disputeId, w => w.isResolution disputeId
  | .opens _, _ => false

end DisputeWrite

/-- What a query does to the two tables: one of the writes, or nothing. -/
inductive DisputeEffect (db db' : AgreementDb) : Option DisputeWrite → Prop where
  | keeps : db'.disputes = db.disputes → db'.resolutions = db.resolutions →
      DisputeEffect db db' none
  | opens (d : Dispute) : (∀ old ∈ db.disputes, old.id ≠ d.id) →
      db'.disputes = db.disputes ++ [d] → db'.resolutions = db.resolutions →
      DisputeEffect db db' (some (.opens d.agreementId))
  | resolves (r : DisputeResolution) : db'.disputes = db.disputes →
      db'.resolutions = db.resolutions ++ [r] → DisputeEffect db db' (some (.resolves r.disputeId))
  | marks (disputeId : String) (updates : DisputeUpdates) : updates.status = .resolved →
      db'.disputes = (db.changeDispute disputeId updates).disputes →
      db'.resolutions = db.resolutions → DisputeEffect db db' (some (.marks disputeId))
  | cancels (disputeId : String) (updates : DisputeUpdates) : updates.status = .cancelled →
      db'.disputes = (db.changeDispute disputeId updates).disputes →
      db'.resolutions = db.resolutions → DisputeEffect db db' (some (.cancels disputeId))

/-- The next query of a request writes what it has looked at, and a stored resolution is followed by
its mark. -/
structure LooksFirst (c : AgreementCall) (history : QueryHistory) : Prop where
  marks : ∀ disputeId, lastResolved history = some disputeId →
    ∃ updates, c = .updateDispute disputeId updates ∧ updates.status = .resolved
  ready : lastResolved history = none → ∀ w, disputeWrite c = some w → w.Ready history
  cancels : lastResolved history = none → ∀ disputeId updates, c = .updateDispute disputeId updates →
    updates.status = .cancelled

/-! ## What the tables keep -/

section Effects

variable {db db' : AgreementDb} {o : Option DisputeWrite} {w : DisputeWrite} {P : Dispute → Prop}
  {disputeId : String}

/-- No query changes the key of a dispute. -/
theorem DisputeEffect.unique (h : DisputeEffect db db' o)
    (hu : Table.Unique Dispute.id db.disputes) : Table.Unique Dispute.id db'.disputes := by
  cases h with
  | keeps hdisputes hresolutions =>
      rw [hdisputes]
      exact hu
  | opens d hfresh hdisputes hresolutions =>
      rw [hdisputes]
      exact hu.concat hfresh
  | resolves r hdisputes hresolutions =>
      rw [hdisputes]
      exact hu
  | marks disputeId updates hstatus hdisputes hresolutions =>
      rw [hdisputes]
      exact hu.updateWhere fun _ _ => rfl
  | cancels disputeId updates hstatus hdisputes hresolutions =>
      rw [hdisputes]
      exact hu.updateWhere fun _ _ => rfl

/-- A dispute keeps a property that the write, if it is about this dispute, gives it again. -/
theorem DisputeEffect.at (h : DisputeEffect db db' o)
    (hat : Table.At Dispute.id disputeId P db.disputes)
    (hmark : o = some (.marks disputeId) → ∀ d, d.status = .resolved → P d)
    (hcancel : o = some (.cancels disputeId) → ∀ d, d.status = .cancelled → P d) :
    Table.At Dispute.id disputeId P db'.disputes := by
  cases h with
  | keeps hdisputes hresolutions =>
      rw [hdisputes]
      exact hat
  | opens d hfresh hdisputes hresolutions =>
      rw [hdisputes]
      exact hat.concat hfresh
  | resolves r hdisputes hresolutions =>
      rw [hdisputes]
      exact hat
  | marks id updates hstatus hdisputes hresolutions =>
      rw [hdisputes]
      refine hat.updateWhere (fun _ _ => rfl) ?_ fun _ _ _ hP _ => hP
      intro d _ hid _ hnamed
      obtain rfl : id = disputeId := (of_decide_eq_true hnamed).symm.trans hid
      exact hmark rfl _ hstatus
  | cancels id updates hstatus hdisputes hresolutions =>
      rw [hdisputes]
      refine hat.updateWhere (fun _ _ => rfl) ?_ fun _ _ _ hP _ => hP
      intro d _ hid _ hnamed
      obtain rfl : id = disputeId := (of_decide_eq_true hnamed).symm.trans hid
      exact hcancel rfl _ hstatus

/-- The mark is set on the dispute. -/
theorem DisputeEffect.marked (h : DisputeEffect db db' (some (.marks disputeId)))
    (hat : Table.At Dispute.id disputeId P db.disputes) : DisputeIs db' disputeId .resolved := by
  cases h with
  | marks id updates hstatus hdisputes hresolutions =>
      rw [DisputeIs, hdisputes]
      refine hat.updateWhere (fun _ _ => rfl) (fun _ _ _ _ _ => hstatus) ?_
      intro d _ hid _ hother
      exact absurd hid (of_decide_eq_false hother)

theorem DisputeEffect.cancelled (h : DisputeEffect db db' (some (.cancels disputeId)))
    (hat : Table.At Dispute.id disputeId P db.disputes) : DisputeIs db' disputeId .cancelled := by
  cases h with
  | cancels id updates hstatus hdisputes hresolutions =>
      rw [DisputeIs, hdisputes]
      refine hat.updateWhere (fun _ _ => rfl) (fun _ _ _ _ _ => hstatus) ?_
      intro d _ hid _ hother
      exact absurd hid (of_decide_eq_false hother)

/-- Only a new dispute can add to the live disputes of an agreement, and only to its own. -/
theorem DisputeEffect.live (h : DisputeEffect db db' o) (agreementId : String)
    (hne : o ≠ some (.opens agreementId)) :
    (db'.liveDisputes agreementId).Sublist (db.liveDisputes agreementId) := by
  cases h with
  | keeps hdisputes hresolutions =>
      rw [AgreementDb.liveDisputes, hdisputes]
      exact .refl _
  | opens d hfresh hdisputes hresolutions =>
      have hother : d.agreementId ≠ agreementId := fun heq => hne (by rw [heq])
      simp [AgreementDb.liveDisputes, hdisputes, hother]
  | resolves r hdisputes hresolutions =>
      rw [AgreementDb.liveDisputes, hdisputes]
      exact .refl _
  | marks disputeId updates hstatus hdisputes hresolutions =>
      rw [AgreementDb.liveDisputes, hdisputes]
      refine Table.filter_updateWhere_sublist fun d _ _ => ?_
      simp [hstatus, DisputeStatus.isLive]
  | cancels disputeId updates hstatus hdisputes hresolutions =>
      rw [AgreementDb.liveDisputes, hdisputes]
      refine Table.filter_updateWhere_sublist fun d _ _ => ?_
      simp [hstatus, DisputeStatus.isLive]

/-- Where there was no live dispute, there is one at most after a dispute was opened. -/
theorem DisputeEffect.length_opened {agreementId : String}
    (h : DisputeEffect db db' (some (.opens agreementId)))
    (hnone : db.liveDisputes agreementId = []) : (db'.liveDisputes agreementId).length ≤ 1 := by
  cases h with
  | opens d hfresh hdisputes hresolutions =>
      rw [AgreementDb.liveDisputes] at hnone ⊢
      rw [hdisputes, List.filter_append, hnone, List.nil_append]
      exact List.length_filter_le _ _

/-- Only a resolution of a dispute adds one. -/
theorem DisputeEffect.resolutions (h : DisputeEffect db db' o) :
    db'.resolutions = db.resolutions ∨
      ∃ r, o = some (.resolves r.disputeId) ∧ db'.resolutions = db.resolutions ++ [r] := by
  cases h with
  | keeps hdisputes hresolutions => exact .inl hresolutions
  | opens d hfresh hdisputes hresolutions => exact .inl hresolutions
  | resolves r hdisputes hresolutions => exact .inr ⟨r, rfl, hresolutions⟩
  | marks disputeId updates hstatus hdisputes hresolutions => exact .inl hresolutions
  | cancels disputeId updates hstatus hdisputes hresolutions => exact .inl hresolutions

/-- A query leaves to a write it does not conflict with what that must find. -/
theorem DisputeWrite.Holds.other (h : w.Holds db) (heffect : DisputeEffect db db' o)
    (hconflict : ∀ w', o = some w' → w'.conflicts w = false) : w.Holds db' := by
  cases w with
  | opens agreementId =>
      have hne : o ≠ some (.opens agreementId) := by
        rintro rfl
        have hself := hconflict _ rfl
        simp [conflicts] at hself
      have hsublist := heffect.live agreementId hne
      rw [show db.liveDisputes agreementId = [] from h] at hsublist
      exact List.sublist_nil.mp hsublist
  | resolves disputeId =>
      apply heffect.at h
      · rintro rfl
        have hself := hconflict _ rfl
        simp [conflicts, isResolution] at hself
      · rintro rfl
        have hself := hconflict _ rfl
        simp [conflicts, isResolution] at hself
  | cancels disputeId =>
      apply heffect.at h
      · rintro rfl
        have hself := hconflict _ rfl
        simp [conflicts] at hself
      · intro _ d hcancelled hresolved
        rw [hcancelled] at hresolved
        cases hresolved
  | marks disputeId => exact heffect.at h (fun _ _ _ => trivial) fun _ _ _ => trivial

/-- A dispute stays resolved, since a cancellation has found its own dispute unresolved. -/
theorem DisputeEffect.resolved (h : DisputeEffect db db' o) (hholds : ∀ w, o = some w → w.Holds db)
    (hat : DisputeIs db disputeId .resolved) : DisputeIs db' disputeId .resolved := by
  apply h.at hat
  · exact fun _ _ hresolved => hresolved
  · intro ho
    obtain ⟨d, hd, hid⟩ := hat.exists_row
    exact absurd (hat.all d hd hid) (Table.At.all (hholds _ ho) d hd hid)

end Effects

/-! ## What an answered query does -/

section Answered

variable {c : AgreementCall} {db db' : AgreementDb} {x : c.reply} {history : QueryHistory}
  {w : DisputeWrite}

/-- A query that writes no dispute leaves both tables alone. -/
theorem effect_of_plain (h : Answers c db x db') (hnone : disputeWrite c = none) :
    DisputeEffect db db' none := by
  cases c with
  | insertDispute new => cases hnone
  | insertResolution new => cases hnone
  | updateDispute disputeId updates => cases hnone
  | wallet c' =>
      obtain ⟨wallet, -, rfl⟩ := h
      exact .keeps rfl rfl
  | insertAgreement new =>
      obtain ⟨id, created, -, -, rfl⟩ := h
      exact .keeps rfl rfl
  | changeStatusByContract contractId target updates =>
      simp only [Answers] at h
      split at h
      · obtain ⟨-, rfl⟩ := h
        exact .keeps rfl rfl
      · obtain ⟨-, rfl⟩ := h
        exact .keeps rfl rfl
      · obtain ⟨-, rfl⟩ := h
        exact .keeps rfl rfl
  | _ =>
      obtain ⟨-, rfl⟩ := h
      exact .keeps rfl rfl

/-- What a request that looks first is about to write is what the answered query does. -/
theorem effect_of_answers (h : Answers c db x db') (hc : LooksFirst c history)
    (cont : c.reply → TracedProgram) :
    DisputeEffect db db' (aboutToWrite (.call (c, history) cont)) := by
  cases hlast : lastResolved history with
  | some disputeId =>
      obtain ⟨updates, rfl, hstatus⟩ := hc.marks disputeId hlast
      obtain ⟨-, rfl⟩ := h
      rw [aboutToWrite_of_last hlast]
      exact .marks disputeId updates hstatus rfl rfl
  | none =>
      rw [aboutToWrite_of_next hlast]
      cases c with
      | insertDispute new =>
          obtain ⟨id, created, hfresh, -, rfl⟩ := h
          exact .opens (new.row id created) hfresh rfl rfl
      | insertResolution new =>
          obtain ⟨id, created, -, -, rfl⟩ := h
          exact .resolves (new.row id created) rfl rfl
      | updateDispute disputeId updates =>
          obtain ⟨-, rfl⟩ := h
          exact .cancels disputeId updates (hc.cancels hlast disputeId updates rfl) rfl rfl
      | _ => exact effect_of_plain h rfl

/-- The resolution of a dispute is stored by a request that was about to. -/
theorem aboutToWrite_of_storedResolution (hc : LooksFirst c history) {disputeId : String}
    (h : storedResolution ⟨c, x⟩ = some disputeId) (cont : c.reply → TracedProgram) :
    aboutToWrite (.call (c, history) cont) = some (.resolves disputeId) := by
  cases c with
  | insertResolution new =>
      cases x with
      | error e => cases h
      | ok row =>
          cases h
          cases hlast : lastResolved history with
          | some id =>
              obtain ⟨updates, heq, -⟩ := hc.marks id hlast
              cases heq
          | none => exact aboutToWrite_of_next hlast cont
  | _ => cases h

/-- An answered query stores the resolution that was about to be stored. -/
theorem storedResolution_of_answers (h : Answers c db x db') {disputeId : String}
    {cont : c.reply → TracedProgram}
    (hw : aboutToWrite (.call (c, history) cont) = some (.resolves disputeId)) :
    storedResolution ⟨c, x⟩ = some disputeId := by
  cases hlast : lastResolved history with
  | some id =>
      rw [aboutToWrite_of_last hlast] at hw
      cases hw
  | none =>
      rw [aboutToWrite_of_next hlast] at hw
      cases c with
      | insertResolution new =>
          obtain ⟨id, created, -, rfl, -⟩ := h
          cases hw
          rfl
      | insertDispute new => cases hw
      | updateDispute id updates => cases hw
      | _ => cases hw

theorem aboutToWrite_of_storedCancellation (hc : LooksFirst c history) {disputeId : String}
    (h : storedCancellation ⟨c, x⟩ = some disputeId) (cont : c.reply → TracedProgram) :
    aboutToWrite (.call (c, history) cont) = some (.cancels disputeId) := by
  cases c with
  | updateDispute id updates =>
      cases x with
      | error e => cases h
      | ok row =>
          obtain ⟨hstatus, heq⟩ := Option.ite_none_right_eq_some.mp h
          cases heq
          cases hlast : lastResolved history with
          | some id' =>
              obtain ⟨updates', heq, hresolved⟩ := hc.marks id' hlast
              cases heq
              rw [hstatus] at hresolved
              cases hresolved
          | none => exact aboutToWrite_of_next hlast cont
  | _ => cases h

theorem stored_of_error (e : Wallets.DbError) :
    storedResolution ⟨c, .error e⟩ = none ∧ storedCancellation ⟨c, .error e⟩ = none := by
  constructor
  · cases c <;> rfl
  · cases c <;> rfl

end Answered

end ThalosBackend.Disputes
