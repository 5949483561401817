import ThalosBackend.Agreements.MilestoneWrites

/-!
# Terminal milestones

`common/milestone-status.ts` calls the statuses `released` and `rejected` terminal. No writer looks at
the status it overwrites: a participant, a webhook and a reconcile set a released milestone back.

`terminalsRespected` is the condition on one operation: whatever it is about to write into a terminal
milestone is the status that is there, and it gives no status to what all lists share, where later
payloads would find one. Where every operation of a run meets it, a terminal milestone stays as it is.
-/

set_option autoImplicit false

namespace ThalosBackend.Agreements

open Js (FloatArithmetic Value)

/-! ## The condition -/

/-- The statuses whose label says `terminal`. -/
def isTerminal (status : MilestoneStatus) : Bool := status = .released ∨ status = .rejected

/-- The operation is about to write nothing but the status it has into a terminal milestone, and gives
no status to all lists. -/
def terminalsRespected (F : FloatArithmetic) (db : AgreementDb) (o : Operation) : Bool :=
  !spreadsStatus db o && db.agreements.all fun a => a.milestones.zipIdx.all fun (m, index) =>
    !isTerminal m.status || (statusWritten F db o a index).all (· = m.status)

/-- The same agreement, with the terminal milestones it had. -/
structure KeepsTerminals (a a' : Agreement) : Prop where
  id : a'.id = a.id
  milestone : ∀ (index : ℕ) (m : Milestone), a.milestones[index]? = some m → isTerminal m.status = true →
    ∃ m' : Milestone, a'.milestones[index]? = some m' ∧ m'.status = m.status

namespace KeepsTerminals

theorem refl (a : Agreement) : KeepsTerminals a a :=
  ⟨rfl, fun _ m hm _ => ⟨m, hm, rfl⟩⟩

theorem trans {a b c : Agreement} (h : KeepsTerminals a b) (h' : KeepsTerminals b c) :
    KeepsTerminals a c := by
  refine ⟨h'.id.trans h.id, fun index m hm hterminal => ?_⟩
  obtain ⟨m', hm', hsame⟩ := h.milestone index m hm hterminal
  obtain ⟨m'', hm'', hsame'⟩ := h'.milestone index m' hm' (hsame ▸ hterminal)
  exact ⟨m'', hm'', hsame'.trans hsame⟩

end KeepsTerminals

/-! ## Steps and runs -/

section Runs

variable {F : FloatArithmetic} {db db' : AgreementDb} {o : Operation}

/-- What the condition says of one entry. -/
theorem status_of_respected (h : terminalsRespected F db o = true) {a : Agreement}
    (ha : a ∈ db.agreements) {index : ℕ} {m : Milestone} (hm : a.milestones[index]? = some m)
    (hterminal : isTerminal m.status = true) {status : MilestoneStatus}
    (hwritten : statusWritten F db o a index = some status) : status = m.status := by
  have hrow := List.all_eq_true.mp (Bool.and_eq_true_iff.mp h).2 a ha
  have hentry := List.all_eq_true.mp hrow (m, index) (List.mk_mem_zipIdx_iff_getElem?.mpr hm)
  simpa [hterminal, hwritten] using hentry

/-- **Step lemma.** An operation that respects them keeps the terminal milestones of a row. -/
theorem MilestonesStep.keepsTerminals {a a' : Agreement} (hid : a'.id = a.id)
    (h : MilestonesStep F db o a a') (hrespected : terminalsRespected F db o = true)
    (ha : a ∈ db.agreements) : KeepsTerminals a a' := by
  refine ⟨hid, fun index m hm hterminal => ?_⟩
  obtain ⟨m', hm', hwrite⟩ := h.exists_entry hm
  refine ⟨m', hm', ?_⟩
  rcases hwrite.status with hsame | hwritten
  · exact hsame
  · exact status_of_respected hrespected ha hm hterminal hwritten

/-- The operations, as long as each respects the terminal milestones. -/
abbrev terminalSystem (F : FloatArithmetic) : StepSystem AgreementDb Operation :=
  (agreementSystem F).restrict fun db o => terminalsRespected F db o = true

/-- Across a run, every agreement stays and keeps its terminal milestones. -/
theorem keepsTerminals_of_leads (h : (terminalSystem F).Reachable db)
    (hrun : (terminalSystem F).Leads db db') :
    Table.Extends KeepsTerminals db.agreements db'.agreements := by
  refine StepSystem.rel_of_steps
    (R := fun db db' : AgreementDb => Table.Extends KeepsTerminals db.agreements db'.agreements)
    (fun db => .refl KeepsTerminals.refl _) (fun _ _ _ h₁ h₂ => h₁.trans (fun _ _ _ => .trans) h₂)
    (fun db o db' _ hs => ?_) h hrun
  obtain ⟨hrespected, hstep⟩ := hs
  rcases step_milestones hstep with hrows | ⟨userId, dto, id, created, -, -, -, hadded⟩
  · exact .of_forall₂ (Table.forall₂_imp_mem hrows fun a a' ha hrow =>
      MilestonesStep.keepsTerminals hrow.1.id_eq hrow.2 hrespected ha)
  · rw [hadded]
    exact .concat KeepsTerminals.refl _ _

/-- **Terminal milestones.** Where no operation is about to write another status into a terminal
milestone, or gives all lists one, a milestone that is released or rejected keeps its status, whatever
happens from there. -/
theorem terminal_milestones (h : (terminalSystem F).Reachable db)
    (hrun : (terminalSystem F).Leads db db') :
    ∀ a ∈ db.agreements, (∃ a' ∈ db'.agreements, a'.id = a.id) ∧
      ∀ a' ∈ db'.agreements, a'.id = a.id → ∀ (index : ℕ) (m : Milestone), a.milestones[index]? = some m →
        m.status = .released ∨ m.status = .rejected →
          ∃ m' : Milestone, a'.milestones[index]? = some m' ∧ m'.status = m.status := by
  intro a ha
  obtain ⟨kept, hkept, hkeeps⟩ := (keepsTerminals_of_leads h hrun).exists_row ha
  refine ⟨⟨kept, hkept, hkeeps.id⟩, fun a' ha' hid index m hm hterminal => ?_⟩
  -- ids are unique, so the row under this id is the one that was kept
  have hunique := uniqueIds_of_reachable (h.leads hrun).of_restrict
  rw [hunique.eq ha' hkept (hid.trans hkeeps.id.symm)]
  exact hkeeps.milestone index m hm (by simpa [isTerminal] using hterminal)

end Runs

/-- The payer releases the first of two milestones. -/
def releaseFirst : List Operation :=
  [createOperation "10" (some "C") splitTen,
    ⟨1, .updateMilestone "payer" "i" ⟨0, .released, "P", none, none⟩⟩]

/-- The theorem for a payload that approves the other milestone. -/
theorem terminal_milestones_approved :
    let approve : Value := .object [("event", .string "milestone.approved"),
      ("contractId", .string "C"), ("milestone",
        .object [("index", .number 1), ("status", .string "approved")])]
    let before := runAll exactArithmetic releaseFirst newStore
    let after := runAll exactArithmetic [⟨2, .webhook approve⟩] before
    after.agreements.map (fun a => a.milestones.map Milestone.status) = [[.released, .approved]] ∧
      ∀ a ∈ before.agreements, (∃ a' ∈ after.agreements, a'.id = a.id) ∧
        ∀ a' ∈ after.agreements, a'.id = a.id → ∀ (index : ℕ) (m : Milestone), a.milestones[index]? = some m →
          m.status = .released ∨ m.status = .rejected →
            ∃ m' : Milestone, a'.milestones[index]? = some m' ∧ m'.status = m.status := by
  intro approve before after
  refine ⟨by decide +kernel, terminal_milestones (F := exactArithmetic) ?_ ?_⟩
  · exact reachable_restrict_runAll (.init isNew_newStore) (by decide +kernel)
  · exact leads_runAll (by decide +kernel)

/-- The payer sets the released milestone back. -/
theorem not_terminal_milestones : ¬ ∀ db db', (agreementSystem exactArithmetic).Reachable db →
    (agreementSystem exactArithmetic).Leads db db' →
      ∀ a ∈ db.agreements, ∀ a' ∈ db'.agreements, a'.id = a.id →
        ∀ (index : ℕ) (m : Milestone), a.milestones[index]? = some m → m.status = .released ∨ m.status = .rejected →
          ∃ m' : Milestone, a'.milestones[index]? = some m' ∧ m'.status = m.status := by
  intro h
  let before := runAll exactArithmetic releaseFirst newStore
  let o : Operation := ⟨2, .updateMilestone "payer" "i" ⟨0, .pending, "P", none, none⟩⟩
  let after := runAll exactArithmetic [o] before
  have hkeeps := h before after (reachable_runAll (.init isNew_newStore))
    (.single ⟨_, _, o.runs exactArithmetic before⟩)
  have hback : ∃ a ∈ before.agreements, ∃ a' ∈ after.agreements, a'.id = a.id ∧
      a.milestones[0]?.map Milestone.status = some .released ∧
      a'.milestones[0]?.map Milestone.status = some .pending := by decide +kernel
  obtain ⟨a, ha, a', ha', hid, hreleased, hpending⟩ := hback
  obtain ⟨m, hm, hstatus⟩ := Option.map_eq_some_iff.mp hreleased
  obtain ⟨m', hm', hsame⟩ := hkeeps a ha a' ha' hid 0 m hm (.inl hstatus)
  rw [hm', Option.map_some, hsame, hstatus] at hpending
  cases hpending

end ThalosBackend.Agreements
