import ThalosBackend.Agreements.Mediation

/-!
# Who stands behind the log

Requests only add to `agreement_activity`. Every row that has been added can be traced to the request
that wrote it, and that request is one that may act on the agreement of the row as the wallet the row
names: not only when it wrote, but as the store is now. Resolvers and the rows of webhooks are judged by
what the request was told, and the row of an assignment names the wallet that was assigned. The requests
that have ended are kept with what they were told, so the account can be given at any time.
-/

set_option autoImplicit false

namespace ThalosBackend.Agreements

open Js (FloatArithmetic)
open Calls (historyOf)

/-! ## What one query adds to the log -/

/-- The rows a query adds to the log when it is answered. -/
def AgreementCall.logged : AgreementCall → List Activity
  | .insertActivity row => [row]
  | _ => []

theorem Answers.activity_eq {c : AgreementCall} {db db' : AgreementDb} {x : c.reply}
    (h : Answers c db x db') : db'.activity = db.activity ++ c.logged := by
  have hsame : db'.activity = db.activity → c.logged = [] →
      db'.activity = db.activity ++ c.logged := by
    intro hdb hnone
    rw [hdb, hnone, List.append_nil]
  cases c with
  | insertActivity row => exact h.2 ▸ rfl
  | wallet c' =>
      obtain ⟨wallet, -, rfl⟩ := h
      exact hsame rfl rfl
  | insertAgreement new =>
      obtain ⟨id, created, -, -, rfl⟩ := h
      exact hsame rfl rfl
  | insertDispute new =>
      obtain ⟨id, created, -, -, rfl⟩ := h
      exact hsame rfl rfl
  | insertResolution new =>
      obtain ⟨id, created, -, -, rfl⟩ := h
      exact hsame rfl rfl
  | changeStatusByContract contractId target updates =>
      simp only [Answers] at h
      split at h
      · exact hsame (h.2 ▸ rfl) rfl
      · exact hsame (h.2 ▸ rfl) rfl
      · exact hsame (h.2 ▸ rfl) rfl
  | _ => exact hsame (h.2 ▸ rfl) rfl

/-- The query of the history was answered, and added the row. -/
def Wrote (history : QueryHistory) (row : Activity) : Prop :=
  ⟨.insertActivity row, .ok ()⟩ ∈ history

/-! ## The account -/

section Account

variable {F : FloatArithmetic} {T : Traffic} {c c' : AgreementConfig T} {l : AgreementLabel T}
  {log₀ : List Activity}

/-- The history of a request after its next query. -/
theorem MediationInv.historyOf_next (h : MediationInv c) {t : ℕ} {req : Served T}
    {call : AgreementCall × QueryHistory} {cont : call.1.reply → TracedProgram}
    (hk : c.threads t = some ⟨req, .call call cont⟩) (x : call.1.reply) :
    historyOf (cont x) = ⟨call.1, x⟩ :: call.2 := by
  obtain ⟨p, history, hrest⟩ := h.recalling.traced t _ hk
  obtain ⟨hhistory, next, rfl, rfl⟩ := Calls.traced_eq_call hrest.symm
  rw [Calls.historyOf_traced, hhistory]

/-- What every run keeps: the log only grows, by what requests have written; and whoever has written a
row is entitled to it by what they were told. -/
structure LogInv (log₀ : List Activity) (c : AgreementConfig T) : Prop where
  mediated : MediationInv c
  grows : ∃ added, c.shared.db.activity = log₀ ++ added ∧
    (∀ row ∈ added, ∃ t k, c.threads t = some k ∧ Wrote (historyOf k.rest) row) ∧
    ∀ t k row, c.threads t = some k → Wrote (historyOf k.rest) row → row ∈ added
  entitled : ∀ t k row, c.threads t = some k → Wrote (historyOf k.rest) row →
    Entitled k.request.operation.request row.agreementId row.actorWallet (historyOf k.rest)

/-- A new entry of a history, or one there was. -/
theorem wrote_cons {call : AgreementCall} {x : call.reply} {history : QueryHistory} {row : Activity} :
    Wrote (⟨call, x⟩ :: history) row ↔
      (⟨call, x⟩ : (c : AgreementCall) × c.reply) = ⟨.insertActivity row, .ok ()⟩ ∨
        Wrote history row := by
  rw [Wrote, List.mem_cons]
  exact or_congr_left eq_comm

/-- **Step lemma.** The account is kept by every step. -/
theorem LogInv.step (h : LogInv log₀ c) (hstep : (freshSystem F T).step c l c') : LogInv log₀ c' := by
  have hmediated := h.mediated.step hstep
  obtain ⟨added, hactivity, hwritten, hadded⟩ := h.grows
  cases Calls.step_cases hstep.1 with
  | start t req hfree =>
      have hnothing : ∀ row, ¬ Wrote (historyOf ((interleaving F T).program req)) row := by
        intro row hrow
        simp only [interleaving, Calls.historyOf_traced] at hrow
        cases hrow
      refine ⟨hmediated, ⟨added, hactivity, ?_, ?_⟩, ?_⟩
      · intro row hrow
        obtain ⟨t', k, hk, hwrote⟩ := hwritten row hrow
        have hne : t' ≠ t := by
          rintro rfl
          rw [hfree] at hk
          cases hk
        exact ⟨t', k, (Function.update_of_ne hne _ _).trans hk, hwrote⟩
      · intro t' k row hk hwrote
        rcases Threads.update_eq_some hk with ⟨-, hself⟩ | ⟨-, hother⟩
        · cases hself
          exact absurd hwrote (hnothing row)
        · exact hadded t' k row hother hwrote
      · intro t' k row hk hwrote
        rcases Threads.update_eq_some hk with ⟨-, hself⟩ | ⟨-, hother⟩
        · cases hself
          exact absurd hwrote (hnothing row)
        · exact h.entitled t' k row hother hwrote
  | act t act req call cont x s hk hexec =>
      have hnext := h.mediated.historyOf_next hk x
      have hpermitted := (h.mediated.disciplined.next hk).1
      -- what the acting request has written, it has written now or before
      have hsplit : ∀ row, Wrote (historyOf (cont x)) row →
          (⟨call.1, x⟩ : (c : AgreementCall) × c.reply) = ⟨.insertActivity row, .ok ()⟩ ∨
            Wrote call.2 row := by
        intro row hrow
        rw [hnext] at hrow
        exact wrote_cons.mp hrow
      have hkeeps : ∀ row, (∃ t k, c.threads t = some k ∧ Wrote (historyOf k.rest) row) →
          ∃ t' k, Function.update c.threads t (some ⟨req, cont x⟩) t' = some k ∧
            Wrote (historyOf k.rest) row := by
        rintro row ⟨t', k, hk', hwrote⟩
        by_cases ht : t' = t
        · subst ht
          rw [hk] at hk'
          cases hk'
          refine ⟨t', _, Function.update_self _ _ _, ?_⟩
          rw [hnext]
          exact List.mem_cons_of_mem _ hwrote
        · exact ⟨t', k, (Function.update_of_ne ht _ _).trans hk', hwrote⟩
      have hentitled : ∀ t' k row,
          Function.update c.threads t (some ⟨req, cont x⟩) t' = some k →
            Wrote (historyOf k.rest) row → Entitled k.request.operation.request row.agreementId
              row.actorWallet (historyOf k.rest) := by
        intro t' k row hk' hwrote
        rcases Threads.update_eq_some hk' with ⟨-, hself⟩ | ⟨-, hother⟩
        · cases hself
          rw [hnext]
          rcases hsplit row hwrote with hnew | hold
          · -- the query was permitted as one that writes this row
            obtain ⟨call, history⟩ := call
            cases hnew
            have hright : Entitled req.operation.request row.agreementId row.actorWallet history :=
              hpermitted
            exact hright.extend (List.suffix_cons _ _)
          · exact (h.entitled t _ row hk hold).extend (List.suffix_cons _ _)
        · exact h.entitled t' k row hother hwrote
      rcases hexec.1.executes with hx | ⟨-, ⟨e, he⟩, hdb⟩
      · refine ⟨hmediated, ⟨added ++ call.1.logged, ?_, ?_, ?_⟩, hentitled⟩
        · rw [hx.activity_eq, hactivity, List.append_assoc]
        · intro row hrow
          rcases List.mem_append.mp hrow with hold | hnew
          · exact hkeeps row (hwritten row hold)
          · obtain ⟨call, history⟩ := call
            cases call with
            | insertActivity row' =>
                obtain rfl := List.mem_singleton.mp hnew
                obtain ⟨rfl, -⟩ := hx
                refine ⟨t, _, Function.update_self _ _ _, ?_⟩
                rw [hnext]
                exact List.mem_cons_self
            | _ => cases hnew
        · intro t' k row hk' hwrote
          rcases Threads.update_eq_some hk' with ⟨-, hself⟩ | ⟨-, hother⟩
          · cases hself
            rcases hsplit row hwrote with hnew | hold
            · obtain ⟨call, history⟩ := call
              cases hnew
              exact List.mem_append_right _ (List.mem_singleton_self _)
            · exact List.mem_append_left _ (hadded t _ row hk hold)
          · exact List.mem_append_left _ (hadded t' k row hother hwrote)
      · refine ⟨hmediated, ⟨added, by rw [hdb]; exact hactivity, ?_, ?_⟩, hentitled⟩
        · intro row hrow
          exact hkeeps row (hwritten row hrow)
        · intro t' k row hk' hwrote
          rcases Threads.update_eq_some hk' with ⟨-, hself⟩ | ⟨-, hother⟩
          · cases hself
            rcases hsplit row hwrote with hnew | hold
            · -- a query that failed has written nothing
              obtain ⟨call, history⟩ := call
              cases hnew
              cases he
            · exact hadded t _ row hk hold
          · exact hadded t' k row hother hwrote
  | env b => exact nomatch b

/-- **Run lemma.** The log as it was comes first, and every other row was written by a request that
may act on its agreement as the wallet it names (`MayAct`, so as the wallet it assigns for `assignResolver`),
on the store as it is now. What a request was told it has written is there. -/
theorem every_log_row_is_accounted_for (hstart : ∀ db, T.startsFrom db → db.activity = log₀)
    (h : (freshSystem F T).Reachable c) :
    ∃ added, c.shared.db.activity = log₀ ++ added ∧
      (∀ row ∈ added, ∃ t k, c.threads t = some k ∧ Wrote (historyOf k.rest) row ∧
        MayAct c.shared.db (historyOf k.rest) k.request.operation.request row.agreementId
          row.actorWallet) ∧
      ∀ t k row, c.threads t = some k → Wrote (historyOf k.rest) row → row ∈ added := by
  have hinv : LogInv log₀ c := by
    refine StepSystem.invariant_of_steps (M := freshSystem F T) (I := LogInv log₀) ?_ ?_ h
    · intro c hinit
      refine ⟨mediationInv_of_reachable (.init hinit), ⟨[], ?_, ?_, ?_⟩, ?_⟩
      · rw [List.append_nil]
        exact hstart _ hinit.1.1
      · exact List.forall_mem_nil _
      · intro t k row hk
        rw [hinit.2 t] at hk
        cases hk
      · intro t k row hk
        rw [hinit.2 t] at hk
        cases hk
    · intro c l c' _ hI hstep
      exact hI.step hstep
  obtain ⟨added, hactivity, hwritten, hadded⟩ := hinv.grows
  refine ⟨added, hactivity, fun row hrow => ?_, hadded⟩
  obtain ⟨t, k, hk, hwrote⟩ := hwritten row hrow
  refine ⟨t, k, hk, hwrote, ?_⟩
  -- what entitled the request when it wrote was told to it, and stands on the store as it is now
  exact hinv.entitled t k row hk hwrote c.shared.db (hinv.mediated.recalling.held t k hk)

end Account

/-! ## An approval in the log -/

section Example

open Calls (Move)

/-- The requests of anyone, on the store with one agreement. -/
def mediatedTraffic : Traffic where
  serves _ := true
  startsFrom db := db = mediatedStore.db

/-- `payer` approves the first milestone. -/
def payerApproves : Served mediatedTraffic where
  operation := ⟨0, .updateMilestone "payer" "a" ⟨0, .approved, "P", none, none⟩⟩
  isServed := rfl

theorem every_log_row_is_accounted_for_approved : ∃ c : AgreementConfig mediatedTraffic,
    (freshSystem exactArithmetic mediatedTraffic).Reachable c ∧
      c.shared.db.activity.map Activity.actorWallet = ["P"] ∧
      ∃ added, c.shared.db.activity = [] ++ added ∧
        (∀ row ∈ added, ∃ t k, c.threads t = some k ∧ Wrote (historyOf k.rest) row ∧
          MayAct c.shared.db (historyOf k.rest) k.request.operation.request row.agreementId
            row.actorWallet) ∧
        ∀ t k row, c.threads t = some k → Wrote (historyOf k.rest) row → row ∈ added := by
  have hrun : (playFrom exactArithmetic _ addsNone mediatedStore
      (.start payerApproves :: List.replicate 12 (.next 0))).map
        (fun state => state.1.db.activity.map Activity.actorWallet) = some ["P"] := by
    decide +kernel
  obtain ⟨state, hstate, hlog⟩ := Option.map_eq_some_iff.mp hrun
  have hreach : (freshSystem exactArithmetic mediatedTraffic).Reachable
      (Calls.begun state.1 state.2) :=
    fresh_of_guarded (reachable_playFrom rfl rfl (fun _ _ _ => addsNoAgreement_of_addsNone) hstate)
  refine ⟨_, hreach, hlog, every_log_row_is_accounted_for ?_ hreach⟩
  rintro db rfl
  rfl

end Example

end ThalosBackend.Agreements
