import ThalosBackend.Kyc.KycRuns

/-!
# Status and time of a verification

A record that is verified tells since when. Three writes set the status and `verified_at`: a first
session, a new session for a record that was rejected or has expired, and a webhook. The first and the
last set them together. A new session clears the time whatever its status is, so a provider that reports
the user verified at once leaves a verified record without one.

The records agree in every run without such a new session, and the step that writes one breaks it.
-/

set_option autoImplicit false

namespace ThalosBackend.Kyc

open Js (Value)
open Calls (Move nextCall)
open Verification (VerificationRecord)

/-- The record is verified exactly if it tells when. -/
def RecordCoherent (v : VerificationRecord) : Prop :=
  v.status = .verified ↔ v.verifiedAt.isSome = true

instance (v : VerificationRecord) : Decidable (RecordCoherent v) :=
  inferInstanceAs (Decidable (_ ↔ _))

/-- No record that is there is given a new session that is verified at once. -/
def RestartsUnverified (db : KycDb) : KycCall → Prop
  | .updateVerification id updates => updates.status = .verified → db.ofId id = []
  | _ => True

section Runs

variable {sessions : Sessions} {c c' : KycConfig} {l : KycLabel}

/-- Outside such sessions, every write sets the status and the time together. -/
theorem coherent_of_reachable
    (h : ((kycSystem sessions).restrict (Answering RestartsUnverified)).Reachable c) :
    ∀ v ∈ c.shared.verifications, RecordCoherent v := by
  refine forall_rows_of_reachable ?_ ?_ ?_ h
  · rintro db new id created - ⟨-, hwrites⟩
    exact hwrites
  · rintro db id updates v hallowed ⟨-, hnull, -⟩ hv -
    -- the record is there, so the session is not verified
    have hstatus : updates.status ≠ .verified := by
      intro hverified
      rw [hallowed hverified] at hv
      cases hv
    simp [RecordCoherent, SessionUpdates.apply, hstatus, hnull]
  · rintro db reference updates v - hwrites - -
    exact hwrites

/-- A new session that is verified at once leaves its record without the time. -/
theorem incoherent_of_restart (h : (kycSystem sessions).Reachable c)
    (hstep : (kycSystem sessions).step c l c') (hguard : ¬ Answering RestartsUnverified c l) :
    ∃ v ∈ c'.shared.verifications, ¬ RecordCoherent v := by
  obtain ⟨t, k, call, rfl, hk, hnext, hnot⟩ := not_answering hguard
  have hreach := reachable_answering h
  cases Calls.step_cases hstep with
  | act t act req call' cont x db hk' hexec =>
      cases hk.symm.trans hk'
      cases hnext
      cases call with
      | updateVerification id updates =>
          obtain ⟨hverified, hne⟩ := Classical.not_imp.mp hnot
          -- the id is a key, so the update finds exactly this row
          obtain ⟨v, hv⟩ := List.exists_mem_of_ne_nil _ hne
          obtain ⟨hmem, hid⟩ := List.mem_filter.mp hv
          have hrow : c.shared.ofId id = [v] := by
            have hkey := (ids_unique hreach).filter_key hmem
            rwa [of_decide_eq_true hid] at hkey
          have hdb : db = c.shared.update id updates := by
            simp only [kycServing, CallAct.exec, Answers, hrow] at hexec
            exact hexec.2
          have hnull : updates.verifiedAt = none :=
            (Calls.only_of_reachable (fun _ _ (req : KycRequest) _ => req.program_only) hreach hk').1.2.1
          refine ⟨updates.apply v, ?_, ?_⟩
          · rw [hdb]
            exact Table.mem_updateWhere.mpr ⟨v, hmem, by rw [if_pos hid]⟩
          · simp [RecordCoherent, SessionUpdates.apply, hverified, hnull]
      | _ => exact absurd trivial hnot

/-- **Records are coherent.** In every run in which no record that is there is given a session that is
verified at once, every record is verified exactly if it tells when; and a step that gives it one leaves
a record that does not. -/
theorem records_coherent :
    (∀ c, ((kycSystem sessions).restrict (Answering RestartsUnverified)).Reachable c →
      ∀ v ∈ c.shared.verifications, RecordCoherent v) ∧
    ∀ c l c', (kycSystem sessions).Reachable c → (kycSystem sessions).step c l c' →
      ¬ Answering RestartsUnverified c l → ∃ v ∈ c'.shared.verifications, ¬ RecordCoherent v :=
  ⟨fun _ h => coherent_of_reachable h, fun _ _ _ h hstep hguard =>
    incoherent_of_restart h hstep hguard⟩

end Runs

/-! ## A second session -/

/-- A provider whose sessions report what the user has asked for. -/
def reportAsked : String → CreateSessionInput → Except HttpException SessionResult :=
  fun _ input => .ok ⟨"session", none, input.metadata⟩

/-- A session of the user `u` that the provider reports with this status. -/
def sessionReported (status : String) : KycRequest :=
  .createSession "sumsub" 0 "u" (.object [("status", .string status)])

/-- The moves of a session that writes. -/
def sessionMoves (t : ℕ) (status : String) : List (Move KycRequest) :=
  .start (sessionReported status) :: List.replicate 3 (.next t)

/-- The row of the call is not verified at once. -/
def restartsUnverified (db : KycDb) : KycCall → Bool
  | .updateVerification id updates => updates.status ≠ .verified || db.ofId id = []
  | _ => true

theorem restartsUnverified_of_eq {db : KycDb} {call : KycCall}
    (h : restartsUnverified db call = true) : RestartsUnverified db call := by
  cases call with
  | updateVerification id updates =>
      intro hverified
      simpa [restartsUnverified, hverified] using h
  | _ => trivial

/-- A user whose first session is verified at once, and whose record tells when. -/
theorem records_coherent_first : ∃ c,
    ((kycSystem (exactly reportAsked)).restrict (Answering RestartsUnverified)).Reachable c ∧
      ∃ v ∈ c.shared.verifications, v.status = .verified ∧ RecordCoherent v := by
  have hrun : ((playKyc reportAsked (allowedMove restartsUnverified) (sessionMoves 0 "verified")).any
      fun state => state.1.verifications.any fun v => v.status = .verified) = true := by decide +kernel
  obtain ⟨state, hstate, hrow⟩ := (Option.any_eq_true _ _).mp hrun
  obtain ⟨v, hv, hverified⟩ := List.any_eq_true.mp hrow
  have hreach := (reachable_playKyc hstate).guard_mono fun _ _ =>
    Answering.mono fun _ _ => restartsUnverified_of_eq
  exact ⟨_, hreach, v, hv, of_decide_eq_true hverified, records_coherent.1 _ hreach v hv⟩

/-- The first session of the user is rejected, and the second is verified at once. -/
theorem not_records_coherent :
    ¬ ∀ sessions c, (kycSystem sessions).Reachable c → ∀ v ∈ c.shared.verifications,
      RecordCoherent v := by
  intro hall
  have hrun : ((playKyc reportAsked (allowedMove fun _ _ => true)
      (sessionMoves 0 "rejected" ++ sessionMoves 1 "verified")).any
        fun state => state.1.verifications.any fun v => !decide (RecordCoherent v)) = true := by
    decide +kernel
  obtain ⟨state, hstate, hrow⟩ := (Option.any_eq_true _ _).mp hrun
  obtain ⟨v, hv, hincoherent⟩ := List.any_eq_true.mp hrow
  have hcoherent := hall _ _ (reachable_playKyc hstate).of_restrict v hv
  simp [hcoherent] at hincoherent

end ThalosBackend.Kyc
