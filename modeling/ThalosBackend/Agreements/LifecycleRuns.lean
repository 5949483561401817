import ThalosBackend.Agreements.AnsweringDb
import ThalosBackend.Agreements.OperationRows

/-!
# One lifecycle for all writers

`agreement-lifecycle.ts` calls itself the only source of truth about transitions. `updateStatus`, the
disputes service and the webhook ask it before they write. `doSync` does not: it writes what Trustless
Work answers, unless the answer is behind in an order of its own.

`pullsAllowed` says of a sync that what it takes over is a transition; where every sync of a run meets
it, the lifecycle holds.
-/

set_option autoImplicit false

namespace ThalosBackend.Agreements

open Js (FloatArithmetic Timestamp Value nonEmpty)

/-! ## Pulls along the lifecycle -/

/-- A status of Trustless Work that leaves the stored one alone, or is one it may move to. -/
def followsLifecycle (current : String) (mapped : Value) : Bool :=
  statusIndex mapped < statusIndex (.string current) || match mapped with
    | .string target => target = current || canTransition current target
    | _ => (columnValue mapped).isNone

/-- The status of the escrow, if the agreement has one there, follows the lifecycle. -/
def allowedPull (fetch : Fetch) (a : Agreement) : Bool :=
  match nonEmpty a.contractId with
  | none => true
  | some contractId =>
    let escrow := fetchTrustlessEscrow contractId fetch
    match (escrow.field "status").toText with
    | none => true
    | some text => !escrow.truthy || followsLifecycle (a.status.getD "pending")
        (twToThalosStatus text (escrow.field "status"))

/-- If the operation is a sync, its pull is allowed. -/
def pullsAllowed (db : AgreementDb) (o : Operation) : Bool :=
  match o.request with
  | .sync agreementId fetch | .reconcile agreementId fetch _ =>
    db.agreements.all fun a => a.id ≠ agreementId || allowedPull fetch a
  | _ => true

/-- The lifecycle of a state: every status is one of the list, a step changes it along a transition,
and no run changes a terminal one. -/
structure OneLifecycle (M : StepSystem AgreementDb Operation) (db : AgreementDb) : Prop where
  canonical : ∀ a ∈ db.agreements, ∃ s : AgreementStatus, a.status = some s.text
  edges : ∀ o db', M.step db o db' → ∀ a ∈ db.agreements, ∀ a' ∈ db'.agreements, a'.id = a.id →
    a'.status ≠ a.status → ∃ s t : AgreementStatus, a.status = some s.text ∧
      a'.status = some t.text ∧ t ∈ agreementTransitions s
  terminal : ∀ db', M.Leads db db' → ∀ a ∈ db.agreements, ∀ s : AgreementStatus,
    a.status = some s.text → isTerminalStatus s = true →
      ∀ a' ∈ db'.agreements, a'.id = a.id → a'.status = a.status

/-! ## Steps -/

/-- The status after a step: as it was, along a transition, or pulled. -/
theorem RowStep.status_cases {o : Operation} {a a' : Agreement} (h : RowStep o a a') :
    a'.status = a.status ∨
      (∃ target, a'.status = some target ∧ canTransition (statusText a.status) target = true) ∨
      ∃ fetch, (o.request = .sync a.id fetch ∨ ∃ second, o.request = .reconcile a.id fetch second) ∧
        a'.status = (pulledStatus fetch a).getD a.status := by
  cases h with
  | same => exact .inl rfl
  | linked userId dto fetch ho => exact .inl rfl
  | status userId dto ho hedge hgate => exact .inr (.inl ⟨_, rfl, hedge⟩)
  | disputed target ho htarget hedge => exact .inr (.inl ⟨_, rfl, hedge⟩)
  | milestone userId dto m ho hm => exact .inl rfl
  | webhookStatus payload event contractId target ho hevent hcontract hconfig hid hedge =>
      exact .inr (.inl ⟨_, rfl, hedge⟩)
  | webhookMilestones payload event contractId milestones ho hevent hcontract hconfig hid hedited =>
      exact .inl rfl
  | pulled _ fetch ho hpulled =>
      rcases hpulled with rfl | rfl
      · exact .inl rfl
      · exact .inr (.inr ⟨fetch, .inl ho, rfl⟩)
  | reconciled _ first second ho hreconciled =>
      obtain ⟨b, hpulled, hcorrected⟩ := hreconciled
      have hstatus : a'.status = b.status := by
        rcases hcorrected with rfl | ⟨-, rfl | ⟨contractId, milestones, -, -, -, -, rfl⟩⟩ <;> rfl
      rw [hstatus]
      rcases hpulled with rfl | rfl
      · exact .inl rfl
      · exact .inr (.inr ⟨first, .inr ⟨second, ho⟩, rfl⟩)

/-- An allowed pull leaves the status alone or moves it along a transition. -/
theorem pulledStatus_of_allowed {fetch : Fetch} {a : Agreement} {s : AgreementStatus}
    (hstatus : a.status = some s.text) (hallowed : allowedPull fetch a = true) :
    (pulledStatus fetch a).getD a.status = a.status ∨
      ∃ target, (pulledStatus fetch a).getD a.status = some target ∧
        canTransition s.text target = true := by
  unfold pulledStatus
  unfold allowedPull at hallowed
  split
  · exact .inl rfl
  · rename_i contractId hcontract
    rw [hcontract] at hallowed
    dsimp only at hallowed ⊢
    split
    · exact .inl rfl
    · rename_i text htext
      rw [htext] at hallowed
      dsimp only at hallowed
      split
      · rename_i hpull
        obtain ⟨htruthy, hdirection⟩ := hpull
        rw [htruthy, hstatus] at hallowed
        rw [hstatus] at hdirection
        -- Trustless Work is not behind, and has another status
        simp only [Bool.not_true, Bool.false_or, Option.getD_some] at hallowed hdirection
        unfold syncDirection at hdirection
        split at hdirection
        · cases hdirection
        split at hdirection
        · cases hdirection
        · rename_i hother hahead
          unfold followsLifecycle at hallowed
          rw [decide_eq_false hahead, Bool.false_or] at hallowed
          split at hallowed
          · rename_i target hmapped
            rw [hmapped] at hother ⊢
            rcases Bool.or_eq_true_iff.mp hallowed with hsame | hedge
            · rw [of_decide_eq_true hsame] at hother
              exact absurd rfl hother
            · exact .inr ⟨target, rfl, hedge⟩
          · rw [Option.isNone_iff_eq_none.mp hallowed]
            exact .inl rfl
      · exact .inl rfl

/-- **Step lemma.** Under an allowed pull a row keeps its status or moves along a transition. -/
theorem RowStep.status_edge {o : Operation} {db : AgreementDb} (hallowed : pullsAllowed db o = true)
    {a a' : Agreement} (ha : a ∈ db.agreements) {s : AgreementStatus}
    (hs : a.status = some s.text) (h : RowStep o a a') :
    a'.status = a.status ∨ ∃ t : AgreementStatus, a'.status = some t.text ∧
      t ∈ agreementTransitions s := by
  have hedge : ∀ target, canTransition s.text target = true →
      ∃ t : AgreementStatus, target = t.text ∧ t ∈ agreementTransitions s := by
    intro target htarget
    obtain ⟨s', t, hs', rfl, hmem⟩ := canTransition_iff.mp htarget
    rw [AgreementStatus.text_inj.mp hs']
    exact ⟨t, rfl, hmem⟩
  rcases h.status_cases with hsame | ⟨target, htarget, hstep⟩ | ⟨fetch, ho, hpulled⟩
  · exact .inl hsame
  · rw [hs] at hstep
    obtain ⟨t, rfl, ht⟩ := hedge target hstep
    exact .inr ⟨t, htarget, ht⟩
  · have hall : db.agreements.all (fun b => b.id ≠ a.id || allowedPull fetch b) = true := by
      rcases ho with ho | ⟨second, ho⟩
      · simpa only [pullsAllowed, ho] using hallowed
      · simpa only [pullsAllowed, ho] using hallowed
    have hpull : allowedPull fetch a = true := by
      simpa using List.all_eq_true.mp hall a ha
    rcases pulledStatus_of_allowed hs hpull with hsame | ⟨target, htarget, hstep⟩
    · exact .inl (hpulled.trans hsame)
    · obtain ⟨t, rfl, ht⟩ := hedge target hstep
      exact .inr ⟨t, hpulled.trans htarget, ht⟩

/-! ## Runs -/

section Runs

variable {F : FloatArithmetic}

/-- The operations, as long as every pull is allowed. -/
abbrev allowedPulls (F : FloatArithmetic) : StepSystem AgreementDb Operation :=
  (agreementSystem F).restrict fun db o => pullsAllowed db o = true

theorem canonical_of_reachable {db : AgreementDb} (h : (allowedPulls F).Reachable db) :
    ∀ a ∈ db.agreements, ∃ s : AgreementStatus, a.status = some s.text := by
  refine StepSystem.invariant_of_steps (I := fun db : AgreementDb => ∀ a ∈ db.agreements,
    ∃ s : AgreementStatus, a.status = some s.text) (fun db hinit => ?_)
    (fun db o db' _ hI hs => ?_) h
  · rw [hinit.1]
    intro a ha
    cases ha
  · refine (step_rows hs.2).forall_mem (fun a a' ha hstep => ?_) fun _ _ _ _ _ _ => ⟨.pending, rfl⟩
    obtain ⟨s, hstatus⟩ := hI a ha
    rcases hstep.status_edge hs.1 ha hstatus with hsame | ⟨t, ht, -⟩
    · exact ⟨s, hsame.trans hstatus⟩
    · exact ⟨t, ht⟩

theorem edge_of_step {db db' : AgreementDb} {o : Operation} (h : (allowedPulls F).Reachable db)
    (hs : (allowedPulls F).step db o db') {a a' : Agreement} (ha : a ∈ db.agreements)
    (ha' : a' ∈ db'.agreements) (hid : a'.id = a.id) (hne : a'.status ≠ a.status) :
    ∃ s t : AgreementStatus, a.status = some s.text ∧ a'.status = some t.text ∧
      t ∈ agreementTransitions s := by
  have hstep := (step_rows hs.2).rowStep (uniqueIds_of_reachable h.of_restrict) ha ha' hid
  obtain ⟨s, hstatus⟩ := canonical_of_reachable h a ha
  rcases hstep.status_edge hs.1 ha hstatus with hsame | ⟨t, ht, hmem⟩
  · exact absurd hsame hne
  · exact ⟨s, t, hstatus, ht, hmem⟩

/-- The row is still there, with its status if that was terminal. -/
structure KeepsTerminal (a a' : Agreement) : Prop where
  id : a'.id = a.id
  status : ∀ s : AgreementStatus, a.status = some s.text → isTerminalStatus s = true →
    a'.status = a.status

theorem KeepsTerminal.trans {a b c : Agreement} (h : KeepsTerminal a b) (h' : KeepsTerminal b c) :
    KeepsTerminal a c := by
  refine ⟨h'.id.trans h.id, fun s hs hterminal => ?_⟩
  have hb := h.status s hs hterminal
  rw [h'.status s (hb.trans hs) hterminal, hb]

theorem keepsTerminal_of_leads {db db' : AgreementDb} (h : (allowedPulls F).Reachable db)
    (hrun : (allowedPulls F).Leads db db') :
    Table.Extends KeepsTerminal db.agreements db'.agreements := by
  refine StepSystem.rel_of_steps
    (R := fun db db' : AgreementDb => Table.Extends KeepsTerminal db.agreements db'.agreements)
    (fun db => .refl (fun _ => ⟨rfl, fun _ _ _ => rfl⟩) _)
    (fun _ _ _ h₁ h₂ => h₁.trans (fun _ _ _ => .trans) h₂) (fun db o db' hdb hs => ?_) h hrun
  refine (step_rows hs.2).extends_of (fun _ => ⟨rfl, fun _ _ _ => rfl⟩) fun a a' ha hstep => ?_
  refine ⟨hstep.id_eq, fun s hstatus hterminal => ?_⟩
  rcases hstep.status_edge hs.1 ha hstatus with hsame | ⟨t, -, hmem⟩
  · exact hsame
  · rw [List.isEmpty_iff.mp hterminal] at hmem
    cases hmem

/-- **One lifecycle.** Where every sync of a run takes over a status the lifecycle allows, or none,
every status is one of the list, changes only along a transition, and is never left once terminal. -/
theorem one_lifecycle {db : AgreementDb} (h : (allowedPulls F).Reachable db) :
    OneLifecycle (allowedPulls F) db where
  canonical := canonical_of_reachable h
  edges o db' hs a ha a' ha' hid hne := edge_of_step h hs ha ha' hid hne
  terminal db' hrun a ha s hs hterminal a' ha' hid := by
    obtain ⟨kept, hkept, hkeeps⟩ := (keepsTerminal_of_leads h hrun).exists_row ha
    have hunique := uniqueIds_of_reachable (h.leads hrun).of_restrict
    rw [hunique.eq ha' hkept (hid.trans hkeeps.id.symm)]
    exact hkeeps.status s hs hterminal

end Runs

/-- An escrow with this status. -/
def escrowWith (status : String) : Value := .object [("id", .string "C"), ("status", .string status)]

/-- The theorem for an agreement that is funded on Trustless Work. -/
theorem one_lifecycle_funded :
    let db := runAll exactArithmetic
      [createOperation "10" (some "C") splitTen, ⟨1, .sync "i" (answered (escrowWith "funded"))⟩]
      newStore
    db.agreements.map Agreement.status = [some "funded"] ∧
      OneLifecycle (allowedPulls exactArithmetic) db := by
  intro db
  refine ⟨by decide +kernel, one_lifecycle ?_⟩
  exact reachable_restrict_runAll (.init isNew_newStore) (by decide +kernel)

/-- A sync does not ask: a cancelled agreement whose escrow is funded is funded again. -/
theorem not_one_lifecycle : ¬ ∀ db, (agreementSystem exactArithmetic).Reachable db →
    OneLifecycle (agreementSystem exactArithmetic) db := by
  intro h
  let cancelled := runAll exactArithmetic [createOperation "10" (some "C") splitTen,
    ⟨1, .updateStatus "payer" "i" ⟨.cancelled, "P"⟩⟩] newStore
  let sync : Operation := ⟨2, .sync "i" (answered (escrowWith "funded"))⟩
  have hterminal := (h cancelled (reachable_runAll (.init isNew_newStore))).terminal
    (sync.run exactArithmetic cancelled).2 (.single ⟨sync, _, sync.runs exactArithmetic cancelled⟩)
  have hbefore : cancelled.agreements.map (fun a => (a.id, a.status)) =
      [("i", some AgreementStatus.cancelled.text)] := by decide +kernel
  have hafter : (sync.run exactArithmetic cancelled).2.agreements.map (fun a => (a.id, a.status)) =
      [("i", some AgreementStatus.funded.text)] := by decide +kernel
  obtain ⟨a, ha, haeq⟩ := List.mem_map.mp (hbefore ▸ List.mem_singleton_self _)
  obtain ⟨a', ha', haeq'⟩ := List.mem_map.mp (hafter ▸ List.mem_singleton_self _)
  obtain ⟨hid, hstatus⟩ := Prod.mk.inj haeq
  obtain ⟨hid', hstatus'⟩ := Prod.mk.inj haeq'
  have hsame := hterminal a ha .cancelled hstatus rfl a' ha' (hid'.trans hid.symm)
  rw [hstatus, hstatus'] at hsame
  exact absurd hsame (by decide)

end ThalosBackend.Agreements
