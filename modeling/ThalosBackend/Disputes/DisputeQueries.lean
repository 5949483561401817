import ThalosBackend.Disputes.DisputeWrites

/-!
# What the requests on disputes ask for

Each of them looks at the disputes right before it writes, and marks a dispute right after it has
stored its resolution. Everything else it asks for leaves the disputes alone. The history of a request
that ends well has its write in it.
-/

set_option autoImplicit false

namespace ThalosBackend.Agreements

/-- The requests on one dispute, from its opening to its end. -/
def AgreementRequest.opensOrCloses : AgreementRequest → Bool
  | .openDispute _ _ | .resolveDispute _ _ _ | .cancelDispute _ _ _ => true
  | _ => false

end ThalosBackend.Agreements

namespace ThalosBackend.Disputes

open Js (FloatArithmetic Timestamp Value)
open Calls (Follows Only)
open Wallets (Reply)
open Agreements

/-- What an operation knows at its end. -/
def Operation.Ends (o : Operation) (answer : AgreementAnswer) (history : QueryHistory) : Prop :=
  lastResolved history = none ∧ match o.request, answer with
    | .resolveDispute _ disputeId _, .resolved result => result.resolution.isSome = true →
        disputeId ∈ history.filterMap storedResolution
    | .cancelDispute _ disputeId _, .done result => result.success = true →
        disputeId ∈ history.filterMap storedCancellation
    | _, _ => True

section Programs

variable {history : QueryHistory} {α : Type}

abbrev Looks {α : Type} (post : α → QueryHistory → Prop) (p : AgreementProgram α)
    (history : QueryHistory) : Prop :=
  Follows (fun _ _ => True) LooksFirst post p history

/-- A program that writes no dispute. -/
abbrev Plain (p : AgreementProgram α) : Prop := Only (fun c => disputeWrite c = none) p

theorem looksFirst_of_plain {c : AgreementCall} (hlast : lastResolved history = none)
    (hc : disputeWrite c = none) : LooksFirst c history := by
  constructor
  · intro disputeId h
    rw [hlast] at h
    cases h
  · intro _ w h
    rw [hc] at h
    cases h
  · intro _ disputeId updates h
    rw [h] at hc
    cases hc

theorem storedResolution_of_plain {c : AgreementCall} (x : c.reply) (hc : disputeWrite c = none) :
    storedResolution ⟨c, x⟩ = none := by
  cases c with
  | insertResolution new => cases hc
  | _ => rfl

/-- What such a program is followed by finds no resolution just stored, and the history so far. -/
theorem looks_of_plain {p : AgreementProgram α} (hp : Plain p) (hlast : lastResolved history = none) :
    Looks (fun _ after => lastResolved after = none ∧ history <:+ after) p history := by
  induction p generalizing history with
  | done a => exact Calls.follows_done ⟨hlast, List.suffix_rfl⟩
  | fail e => exact Calls.follows_fail e
  | call c next ih =>
      apply Calls.follows_call.mpr
      constructor
      · exact looksFirst_of_plain hlast hp.1
      · intro x _
        have hnext : lastResolved (⟨c, x⟩ :: history) = none := storedResolution_of_plain x hp.1
        apply (ih x (hp.2 x trivial) hnext).mono (fun _ _ _ => trivial) (fun _ _ _ h => h)
        · rintro a after ⟨hafter, hsuffix⟩
          exact ⟨hafter, (List.suffix_cons _ _).trans hsuffix⟩
        · exact fun _ _ => trivial

theorem plain_of_quiet {p : AgreementProgram α} (hp : Quiet p) : Plain p := by
  refine Only.mono hp fun c hc => ?_
  cases c with
  | insertDispute new => cases hc
  | updateDispute disputeId updates => cases hc
  | insertResolution new => cases hc
  | _ => rfl

theorem looks_of_quiet {p : AgreementProgram α} (hp : Quiet p) (hlast : lastResolved history = none) :
    Looks (fun _ after => lastResolved after = none ∧ history <:+ after) p history :=
  looks_of_plain (plain_of_quiet hp) hlast

theorem applyStatusChange_plain (now : Timestamp) (agreementId wallet : String)
    (target : AgreementStatus) (enforce : Bool) (details : List (String × Value)) :
    Plain (applyStatusChange now agreementId wallet target enforce details) := by
  refine Calls.only_ask rfl fun x => ?_
  cases x with
  | error e => exact Calls.only_done _
  | ok current =>
      refine (Calls.only_ofExcept _).bind fun refused => ?_
      cases refused with
      | some reason => exact Calls.only_done _
      | none =>
          refine Calls.only_ask rfl fun y => ?_
          cases y with
          | error e => exact Calls.only_done _
          | ok _ =>
              apply Only.bind (plain_of_quiet (logActivity_quiet _))
              intro _
              apply Only.bind (plain_of_quiet (emitStatus_quiet _ _ _ _ _))
              intro _
              exact Calls.only_done _

theorem openDispute_looks (now : Timestamp) (userId : String) (dto : OpenDisputeDto)
    (hlast : lastResolved history = none) :
    Looks (fun _ after => lastResolved after = none) (openDispute now userId dto) history := by
  apply (looks_of_quiet (assertCanAccessAgreement_quiet _ _) hlast).bind_post
  rintro _ history₁ ⟨hlast₁, -⟩
  apply (looks_of_quiet (assertActorWallet_quiet _ _) hlast₁).bind_post
  rintro _ history₂ ⟨hlast₂, -⟩
  apply Calls.follows_ask (looksFirst_of_plain hlast₂ rfl)
  intro existing _
  split
  · exact Calls.follows_done rfl
  · rename_i hnone
    have hdata : Reply.data existing = none := by
      rw [Bool.not_eq_true, Option.isSome_eq_false_iff, Option.isNone_iff_eq_none] at hnone
      exact hnone
    apply Calls.follows_ask
    · constructor
      · intro disputeId h
        cases h
      · intro _ w hw
        cases hw
        exact ⟨existing, history₂, rfl, hdata⟩
      · intro _ disputeId updates h
        cases h
    intro x _
    cases x with
    | error e => exact Calls.follows_done rfl
    | ok dispute =>
        apply (looks_of_plain (applyStatusChange_plain _ _ _ _ _ _) rfl).bind_post
        rintro result history₃ ⟨hlast₃, -⟩
        split
        · exact Calls.follows_fail _
        · apply (looks_of_quiet (logActivity_quiet _) hlast₃).bind_post
          rintro _ history₄ ⟨hlast₄, -⟩
          apply (looks_of_quiet (emit_quiet _) hlast₄).bind_post
          rintro _ history₅ ⟨hlast₅, -⟩
          exact Calls.follows_done hlast₅

/-- What is in the history stays there. -/
theorem mem_of_suffix {f : (c : AgreementCall) × c.reply → Option String} {disputeId : String}
    {after : QueryHistory} (h : disputeId ∈ history.filterMap f) (hsuffix : history <:+ after) :
    disputeId ∈ after.filterMap f :=
  (hsuffix.sublist.filterMap f).subset h

theorem resolveDispute_looks (F : FloatArithmetic) (now : Timestamp) (userId disputeId : String)
    (dto : ResolveDisputeDto) (hlast : lastResolved history = none) :
    Looks (fun result after => lastResolved after = none ∧
        (result.resolution.isSome = true → disputeId ∈ after.filterMap storedResolution))
      (resolveDispute F now userId disputeId dto) history := by
  apply (looks_of_quiet (assertActorWallet_quiet _ _) hlast).bind_post
  rintro _ history₁ ⟨hlast₁, -⟩
  split
  · exact Calls.follows_fail _
  apply Calls.follows_ask (looksFirst_of_plain hlast₁ rfl)
  intro found _
  split
  · exact Calls.follows_fail _
  · rename_i dispute hfound
    split
    · exact Calls.follows_fail _
    · rename_i hunresolved
      split
      · exact Calls.follows_fail _
      · apply Calls.follows_ask
        · constructor
          · intro id h
            cases h
          · intro _ w hw
            cases hw
            exact ⟨found, history₁, dispute, rfl, hfound, hunresolved⟩
          · intro _ id updates h
            cases h
        intro x _
        cases x with
        | error e => exact Calls.follows_done ⟨rfl, fun h => by cases h⟩
        | ok resolution =>
            -- the resolution is in the history from here on
            apply Calls.follows_ask
            · constructor
              · intro id h
                cases h
                exact ⟨_, rfl, rfl⟩
              · intro h
                cases h
              · intro h
                cases h
            intro y _
            apply (looks_of_plain (applyStatusChange_plain _ _ _ _ _ _) rfl).bind_post
            rintro result history₂ ⟨hlast₂, hsuffix₂⟩
            split
            · exact Calls.follows_done ⟨hlast₂, fun h => by cases h⟩
            · apply (looks_of_quiet (logActivity_quiet _) hlast₂).bind_post
              rintro _ history₃ ⟨hlast₃, hsuffix₃⟩
              apply (looks_of_quiet (emit_quiet _) hlast₃).bind_post
              rintro _ history₄ ⟨hlast₄, hsuffix₄⟩
              refine Calls.follows_done ⟨hlast₄, fun _ => ?_⟩
              apply mem_of_suffix _ (hsuffix₂.trans (hsuffix₃.trans hsuffix₄))
              simp [storedResolution]

theorem reactivate_plain (now : Timestamp) (disputeId agreementId : String) (dto : CancelDisputeDto) :
    Plain (reactivate now disputeId agreementId dto) := by
  refine Calls.only_ask rfl fun x => ?_
  dsimp only
  split
  · exact Calls.only_fail _
  · apply Only.bind (applyStatusChange_plain _ _ _ _ _ _)
    intro result
    split
    · exact Calls.only_done _
    · apply Only.bind (plain_of_quiet (logActivity_quiet _))
      intro _
      exact Calls.only_done _

theorem cancelDispute_looks (now : Timestamp) (userId disputeId : String) (dto : CancelDisputeDto)
    (hlast : lastResolved history = none) :
    Looks (fun result after => lastResolved after = none ∧
        (result.success = true → disputeId ∈ after.filterMap storedCancellation))
      (cancelDispute now userId disputeId dto) history := by
  apply (looks_of_quiet (assertActorWallet_quiet _ _) hlast).bind_post
  rintro _ history₁ ⟨hlast₁, -⟩
  apply Calls.follows_ask (looksFirst_of_plain hlast₁ rfl)
  intro found _
  split
  · exact Calls.follows_fail _
  · rename_i dispute hfound
    split
    · exact Calls.follows_fail _
    · split
      · exact Calls.follows_fail _
      · -- the cancellation writes to a dispute it has read as unresolved
        rename_i hunresolved
        apply Calls.follows_ask
        · constructor
          · intro id h
            cases h
          · intro _ w hw
            cases hw
            exact ⟨found, history₁, dispute, rfl, hfound, hunresolved⟩
          · intro _ id updates h
            cases h
            rfl
        intro x _
        cases x with
        | error e => exact Calls.follows_done ⟨rfl, fun h => by cases h⟩
        | ok _ =>
            apply (looks_of_plain (reactivate_plain _ _ _ _) rfl).mono (fun _ _ _ => trivial)
              (fun _ _ _ h => h)
            · rintro result after ⟨hafter, hsuffix⟩
              refine ⟨hafter, fun _ => mem_of_suffix ?_ hsuffix⟩
              simp [storedCancellation]
            · exact fun _ _ => trivial

/-- What is left of such a program has looked at what it is about to write. -/
theorem ready_of_aboutToWrite {p : AgreementProgram AgreementAnswer}
    {post : AgreementAnswer → QueryHistory → Prop} (hp : Looks post p history) {w : DisputeWrite}
    (hw : aboutToWrite (Calls.traced p history) = some w) : w.Ready history := by
  cases hlast : lastResolved history with
  | some disputeId =>
      have hmarks := aboutToWrite_marks.mpr ((Calls.historyOf_traced p history).symm ▸ hlast)
      rw [hw] at hmarks
      cases hmarks
      exact hlast
  | none =>
      cases p with
      | done a => simp [aboutToWrite, Calls.traced, Calls.historyOf, hlast] at hw
      | fail e => simp [aboutToWrite, Calls.traced, Calls.historyOf, hlast] at hw
      | call c next =>
          obtain ⟨hc, -⟩ := Calls.follows_call.mp hp
          rw [Calls.traced, aboutToWrite_of_next hlast] at hw
          exact hc.ready hlast w hw

/-- Every request on a dispute looks before it writes, and ends with its write in the history. -/
theorem program_looks (F : FloatArithmetic) (o : Operation)
    (ho : o.request.opensOrCloses = true) : Looks (Operation.Ends o) (o.program F) [] := by
  obtain ⟨now, request⟩ := o
  cases request with
  | openDispute userId dto =>
      apply (openDispute_looks now userId dto rfl).bind_post
      intro result after hlast
      exact Calls.follows_done ⟨hlast, trivial⟩
  | resolveDispute userId disputeId dto =>
      apply (resolveDispute_looks F now userId disputeId dto rfl).bind_post
      intro result after hends
      exact Calls.follows_done hends
  | cancelDispute userId disputeId dto =>
      apply (cancelDispute_looks now userId disputeId dto rfl).bind_post
      intro result after hends
      exact Calls.follows_done hends
  | _ => cases ho

end Programs

end ThalosBackend.Disputes
