import ThalosBackend.Webhooks.WebhookQueries

/-!
# Webhooks while contracts are linked

A webhook reads the agreement with a contract id and then updates the agreements with that contract
id. Users choose contract ids: `create` and `linkContract` give an agreement any of them, whoever has
it already, and they may do so between the two queries.

In the runs in which no query of another request leaves a webhook about to hit an agreement it has not
read, every agreement a webhook changes is the one it has read and checked.
-/

set_option autoImplicit false

namespace ThalosBackend.Agreements

def AgreementRequest.isWebhook : AgreementRequest → Bool
  | .webhook _ => true
  | _ => false

/-- A webhook, or a request that gives an agreement its contract. -/
def AgreementRequest.usesContracts : AgreementRequest → Bool
  | .webhook _ | .create _ _ | .linkContract _ _ _ _ => true
  | _ => false

end ThalosBackend.Agreements

namespace ThalosBackend.Webhooks

open Js (FloatArithmetic Timestamp Value)
open Calls (Follows)
open Agreements

/-! ## The requests -/

/-- They come on any tables. -/
def contractTraffic : Traffic where
  serves := AgreementRequest.usesContracts
  startsFrom _ := True

/-- The row is the one that was read last; a status was checked against the one it had then. -/
def OfRowRead (w : RowWrite) : Prop :=
  ∃ a, w.seen = some a ∧ a.id = w.before.id ∧
    ∀ target, w.updates.status = some (some target) →
      canTransition (statusText a.status) target = true

/-- The query would rewrite no row but the one that was read last. -/
def AimsAtRead (db : AgreementDb) (c : AgreementCall) (history : QueryHistory) : Prop :=
  ∀ b ∈ c.hits db, ∃ a, lastRead history = some a ∧ a.id = b.id

/-- An answered query leaves no webhook that is about to rewrite another row than the one it has
read. -/
def KeepsAims (c : AgreementConfig contractTraffic) :
    AgreementLabel contractTraffic → Prop
  | .act t .answer => ∀ req call history cont, c.threads t = some ⟨req, .call (call, history) cont⟩ →
      ∀ x db', Answers call c.shared.db x db' → ∀ t' req' call' history' cont', t' ≠ t →
        c.threads t' = some ⟨req', .call (call', history') cont'⟩ →
        req'.operation.request.isWebhook = true → AimsAtRead db' call' history'
  | _ => True

/-! ## What a webhook is about to do -/

section Queries

variable {c : AgreementCall} {db db' : AgreementDb} {history : QueryHistory} {o : Operation}
  {w : RowWrite}

/-- What a webhook hits has the contract. -/
theorem contract_of_hits (hc : Asks c history) {b : Agreement} (hb : b ∈ c.hits db) :
    ∃ contractId found before, b ∈ db.byContract contractId ∧
      history = ⟨.findByContract contractId, .ok found⟩ :: before := by
  cases c with
  | updateAgreement id updates => cases hc
  | updateByContract contractId updates =>
      obtain ⟨-, -, a, before, hhistory⟩ := hc
      exact ⟨contractId, some a, before, hb, hhistory⟩
  | changeStatusByContract contractId target updates =>
      obtain ⟨-, -, -, found, before, hhistory, -⟩ := hc
      have hsole := Table.sole_eq_some.mp (Option.mem_toList.mp hb)
      have hmem := List.mem_singleton_self b
      rw [← hsole] at hmem
      obtain ⟨hrow, hmatch⟩ := List.mem_filter.mp hmem
      simp only [matchesStatusUpdate, decide_eq_true_eq] at hmatch
      exact ⟨contractId, found, before, mem_byContract.mpr ⟨hrow, hmatch.1⟩, hhistory⟩
  | _ => cases hb

/-- Right after its read a webhook aims at what it has found. -/
theorem aimsAtRead_of_asks {act : QueryAct} {call : AgreementCall} {x : call.reply}
    (hx : act.exec call db x db') (hc : Asks c (⟨call, x⟩ :: history)) :
    AimsAtRead db' c (⟨call, x⟩ :: history) := by
  intro b hb
  obtain ⟨contractId, found, before, hmem, heq⟩ := contract_of_hits hc hb
  cases heq
  obtain ⟨rfl, hfound⟩ := findByContract_found hx.executes
  rw [hfound found rfl] at hmem
  exact ⟨b, Option.mem_toList.mp hmem, rfl⟩

/-- Before its read it aims at nothing. -/
theorem aimsAtRead_nil (hc : Asks c []) : AimsAtRead db c [] := by
  intro b hb
  obtain ⟨contractId, found, before, -, heq⟩ := contract_of_hits hc hb
  cases heq

/-- What a webhook rewrites is what it aims at, with a status it has checked. -/
theorem ofRowRead_of_written (hc : Asks c history) (haims : AimsAtRead db c history)
    (hw : w ∈ c.written o history db) : OfRowRead w := by
  obtain ⟨hhit, hupdates, -, hseen⟩ := mem_written.mp hw
  obtain ⟨a, hread, hid⟩ := haims w.before hhit
  refine ⟨a, hseen.trans hread, hid, fun target htarget => ?_⟩
  cases c with
  | updateAgreement id updates => cases hc
  | updateByContract contractId updates =>
      obtain rfl := Option.some.inj hupdates
      rw [hc.2.1] at htarget
      cases htarget
  | changeStatusByContract contractId target' updates =>
      obtain rfl := Option.some.inj hupdates
      obtain ⟨-, -, hstatus, found, before, rfl, hfound⟩ := hc
      rw [hstatus] at htarget
      cases htarget
      exact hfound a hread
  | _ => cases hupdates

end Queries

/-! ## Runs -/

/-- A webhook asks as webhooks do. -/
def AsksAsWebhook (o : Operation) (c : AgreementCall) (history : QueryHistory) : Prop :=
  o.request.isWebhook = true → Asks c history

theorem program_asks (F : FloatArithmetic) (o : Operation)
    (ho : o.request.usesContracts = true) :
    Follows (fun _ _ => True) (AsksAsWebhook o) (fun _ _ => True) (o.program F) [] := by
  obtain ⟨now, request⟩ := o
  cases request with
  | webhook payload =>
      have hasks : AsksOnly (Operation.program F ⟨now, .webhook payload⟩) [] :=
        (handleEvent_asks now payload).bind fun _ _ => Calls.follows_done trivial
      exact hasks.mono (fun _ _ _ => trivial) (fun _ _ _ h _ => h) (fun _ _ _ => trivial)
        (List.forall_mem_nil _)
  | create userId dto => exact Calls.follows_of_forall (fun _ _ h => by cases h) _
  | linkContract userId agreementId dto fetch =>
      exact Calls.follows_of_forall (fun _ _ h => by cases h) _
  | _ => cases ho

/-- What every run of the guarded requests keeps. -/
structure AimInv (c : AgreementConfig contractTraffic) : Prop where
  disciplined : Disciplined (fun _ _ => True) AsksAsWebhook (fun _ _ _ => True) c
  aims : ∀ t req call history cont, c.threads t = some ⟨req, .call (call, history) cont⟩ →
    req.operation.request.isWebhook = true → AimsAtRead c.shared.db call history
  ofRowRead : ∀ w ∈ c.shared.writes, w.operation.request.isWebhook = true → OfRowRead w

variable {F : FloatArithmetic} {c c' : AgreementConfig contractTraffic}
  {l : AgreementLabel contractTraffic}

theorem AimInv.init (h : (interleavingSystem F contractTraffic).init c) :
    AimInv c := by
  refine ⟨disciplined_init h, ?_, ?_⟩
  · intro t req call history cont hk
    rw [h.2 t] at hk
    cases hk
  · intro w hw
    rw [h.1.2] at hw
    cases hw

theorem AimInv.step (h : AimInv c) (hguard : KeepsAims c l)
    (hstep : (interleavingSystem F contractTraffic).step c l c') : AimInv c' := by
  have hdisciplined : Disciplined (fun _ _ => True) AsksAsWebhook (fun _ _ _ => True) c' :=
    h.disciplined.step (fun o ho => program_asks F o ho) (fun _ _ _ _ _ => trivial) hstep
  refine ⟨hdisciplined, ?_, ?_⟩
  · intro t req call history cont hk hwebhook
    have hasks := (hdisciplined.next hk).1 hwebhook
    cases h.disciplined.atQuery (fun _ _ _ _ _ => trivial) hstep hk with
    | begun hshared hnil =>
        rw [hnil] at hasks ⊢
        exact aimsAtRead_nil hasks
    | replied act before next x hl hhistory hbefore hexec =>
        rw [hhistory] at hasks ⊢
        exact aimsAtRead_of_asks hexec.1 hasks
    | other t' act req' before next x hl hne hsame hbefore hexec =>
        cases act with
        | answer =>
            subst hl
            -- another request has written: by the guard the row that was read is still aimed at
            exact hguard req' before.1 before.2 next hbefore x _ hexec.1 t req call history cont hne
              hsame hwebhook
        | fail =>
            rw [exec_fail hexec]
            exact h.aims t req call history cont hsame hwebhook
    | kept hshared hsame =>
        rw [hshared]
        exact h.aims t req call history cont hsame hwebhook
  · intro w hw hwebhook
    cases Calls.step_cases hstep with
    | start t req hfree => exact h.ofRowRead w hw hwebhook
    | act t act req before next x s hk hexec =>
        cases act with
        | answer =>
            simp only [hexec.2] at hw
            rcases List.mem_append.mp hw with hw | hw
            · have hrequest := (mem_written.mp hw).2.2.1
              rw [hrequest] at hwebhook
              exact ofRowRead_of_written ((h.disciplined.next hk).1 hwebhook)
                (h.aims t req before.1 before.2 next hk hwebhook) hw
            · exact h.ofRowRead w hw hwebhook
        | fail =>
            obtain rfl := exec_fail hexec
            exact h.ofRowRead w hw hwebhook
    | env b => exact nomatch b

/-- **A webhook writes what it validated.** In a run of webhooks, creations and contract links in
which no query of another request leaves a webhook about to rewrite an agreement it has not read,
every row a webhook rewrites is the one it had read, and its transition was checked. -/
theorem webhook_writes_row_read (F : FloatArithmetic)
    (h : ((interleavingSystem F contractTraffic).restrict KeepsAims).Reachable c) :
    ∀ w ∈ c.shared.writes, w.operation.request.isWebhook = true → OfRowRead w := by
  have hinv : AimInv c :=
    StepSystem.invariant_of_steps
      (M := (interleavingSystem F contractTraffic).restrict KeepsAims)
      (fun _ hinit => AimInv.init hinit) (fun _ _ _ _ hI hs => hI.step hs.1 hs.2) h
  exact hinv.ofRowRead

/-! ## A webhook and a link -/

section WebhookAndLink

open Calls (Move)

/-- An agreement of the two parties with this status and without a contract. -/
def unlinkedStore (status : AgreementStatus) : AgreementStore where
  db := storeWith twoParties
    [{ (sampleDto "10" none splitTen).row.row "a" 0 with status := some status.text }] []
  writes := []

/-- `payer` gives the agreement the contract `C`. -/
def linkToC : Served contractTraffic where
  operation := ⟨0, .linkContract "payer" "a" ⟨"C", "P"⟩
    (answered (.record [("id", .string "C")]))⟩
  isServed := rfl

/-- Trustless Work reports that the contract `C` was cancelled. -/
def cancelC : Served contractTraffic where
  operation := ⟨0, .webhook (.record [("event", .string "contract.cancelled"),
    ("contractId", .string "C")])⟩
  isServed := rfl

/-- No other request is a webhook that has a query left. -/
def noOtherWebhook (_ : AgreementStore) (tasks : List (AgreementTask contractTraffic)) :
    Move (Served contractTraffic) → Bool
  | .start _ => true
  | .next t => tasks.zipIdx.all fun other => other.2 = t || match other.1.rest with
    | .call _ _ => !other.1.request.operation.request.isWebhook
    | _ => true

theorem keepsAims_of_noOtherWebhook {s : AgreementStore}
    {tasks : List (AgreementTask contractTraffic)}
    {m : Move (Served contractTraffic)} (h : noOtherWebhook s tasks m = true) :
    KeepsAims (Calls.begun s tasks)
      (m.label (interleaving F contractTraffic) .answer tasks) := by
  cases m with
  | start req => trivial
  | next t =>
      intro req call history cont _ x db' _ t' req' call' history' cont' hne hk' hwebhook
      have hother : (⟨req', .call (call', history') cont'⟩, t') ∈ tasks.zipIdx :=
        List.mem_zipIdx_iff_getElem?.mpr hk'
      have hnone := List.all_eq_true.mp h _ hother
      simp [hne, hwebhook] at hnone

/-- A webhook that comes after the link cancels the agreement it has read. -/
theorem webhook_writes_row_read_linked :
    ∃ c, ((interleavingSystem exactArithmetic contractTraffic).restrict
        KeepsAims).Reachable c ∧
      (∀ w ∈ c.shared.writes, w.operation.request.isWebhook = true → OfRowRead w) ∧
      c.shared.db.agreements.map Agreement.status = [some "cancelled"] := by
  have hrun : (playFrom exactArithmetic _ noOtherWebhook (unlinkedStore .funded)
      (.start linkToC :: (List.replicate 9 (.next 0) ++ .start cancelC ::
        List.replicate 4 (.next 1)))).map
          (fun state => state.1.db.agreements.map Agreement.status) =
      some [some "cancelled"] := by decide +kernel
  obtain ⟨state, hstate, hstatuses⟩ := Option.map_eq_some_iff.mp hrun
  have hreach : ((interleavingSystem exactArithmetic contractTraffic).restrict
      KeepsAims).Reachable (Calls.begun state.1 state.2) :=
    reachable_playFrom trivial rfl
      (fun _ _ _ => keepsAims_of_noOtherWebhook) hstate
  exact ⟨_, hreach, webhook_writes_row_read exactArithmetic hreach, hstatuses⟩

/-- Where it reads before the link, it finds nothing and cancels the agreement all the same, though
that is completed. -/
theorem not_webhook_writes_row_read :
    ¬ ∀ c, (interleavingSystem exactArithmetic contractTraffic).Reachable c →
      ∀ w ∈ c.shared.writes, w.operation.request.isWebhook = true → OfRowRead w := by
  intro hall
  have hrun : ((playFrom exactArithmetic _ (fun _ _ _ => true) (unlinkedStore .completed)
      (.start cancelC :: .next 0 :: .start linkToC :: (List.replicate 9 (.next 1) ++
        List.replicate 3 (.next 0)))).any fun state => state.1.writes.any fun w =>
      w.operation.request.isWebhook && w.seen.isNone && w.before.status = some "completed" &&
        w.after.status = some "cancelled") = true := by decide +kernel
  obtain ⟨state, hstate, hwrite⟩ := (Option.any_eq_true _ _).mp hrun
  obtain ⟨w, hw, hwrite⟩ := List.any_eq_true.mp hwrite
  simp only [Bool.and_eq_true, Option.isNone_iff_eq_none] at hwrite
  obtain ⟨⟨⟨hwebhook, hnone⟩, -⟩, -⟩ := hwrite
  have hreach := reachable_playAll trivial rfl hstate
  obtain ⟨a, ha, -⟩ := hall _ hreach w hw hwebhook
  rw [hnone] at ha
  cases ha

end WebhookAndLink

end ThalosBackend.Webhooks
