import ThalosBackend.Kyc.KycService

/-!
# Messages that come late

A provider tells of a session by messages: that it is pending or in review, and then its decision. They
are delivered at least once, and in any order. Every webhook overwrites the status of the record, so the
status is the one of the message that came last, whatever the record was before.

So an approval stays, and the record ends as if the messages had come in order, exactly when nothing else
comes after the decision (`not_undone_iff`).
-/

set_option autoImplicit false

namespace ThalosBackend.Kyc

open Js (Timestamp)
open Calls (Runs)
open Verification (VerificationRecord VerificationStatus)

/-! ## Webhooks one after the other -/

/-- A decision; no session waits for one any more. -/
def isFinal : VerificationStatus → Bool
  | .verified | .expired | .rejected => true
  | .unverified | .pending => false

section Deliveries

variable {μ : Type} (processWebhook : μ → WebhookResult)

/-- The table after a message has been delivered: the provider reads it, and the service handles what
the provider has read. -/
def deliver (db : KycDb) (d : Timestamp × μ) : KycDb :=
  (Calls.run (KycDb.answer fun _ _ => .error (.internalServerError "No session is asked for"))
    (handleWebhookProcessed d.1 (processWebhook d.2)) db).2

/-- The table after these deliveries. -/
def deliverAll (ds : List (Timestamp × μ)) (db : KycDb) : KycDb := ds.foldl (deliver processWebhook) db

/-- The status a message stands for. -/
def statusOf (m : μ) : VerificationStatus := mapProviderStatus (some (processWebhook m).result.status)

/-- The row with the id has this status. -/
def HasStatus (db : KycDb) (id : String) (status : VerificationStatus) : Prop :=
  ∃ v, db.ofId id = [v] ∧ v.status = status

/-- The messages about the session with this reference, as its provider has produced them, and their
deliveries: each is delivered at least once. -/
structure Conversation (reference : String) (earlier : List μ) (decision : μ)
    (ds : List (Timestamp × μ)) : Prop where
  about : ∀ m ∈ earlier ++ [decision], (processWebhook m).providerVerificationId = reference
  undecided : ∀ m ∈ earlier, statusOf processWebhook m = .pending
  decides : isFinal (statusOf processWebhook decision) = true
  produced : ∀ d ∈ ds, d.2 ∈ earlier ++ [decision]
  delivered : ∀ m ∈ earlier ++ [decision], m ∈ ds.map Prod.snd

/-- Once the record is verified, no message of before the decision takes it back, and it ends as it does
when the messages are delivered once in the order they were produced. -/
structure NotUndone (db : KycDb) (id : String) (earlier : List μ) (decision : μ)
    (ds : List (Timestamp × μ)) : Prop where
  kept : ∀ front d back, ds = front ++ d :: back → d.2 ∈ earlier →
    HasStatus (deliverAll processWebhook front db) id .verified →
    ∀ status, HasStatus (deliverAll processWebhook (front ++ [d]) db) id status →
      isFinal status = true
  inOrder : ∀ ordered : List (Timestamp × μ), ordered.map Prod.snd = earlier ++ [decision] →
    ∀ status, HasStatus (deliverAll processWebhook ordered db) id status →
      HasStatus (deliverAll processWebhook ds db) id status

/-- The decision is the last word, nothing else follows an approval, and nothing else comes first to a
record that is verified. -/
structure DecisionLast (start : VerificationStatus) (decision : μ) (ds : List (Timestamp × μ)) :
    Prop where
  last : ∀ d, ds.getLast? = some d → d.2 = decision
  approval : statusOf processWebhook decision = .verified → ∀ front d back,
    ds = front ++ d :: back → d.2 = decision → ∀ d' ∈ back, d'.2 = decision
  first : start = .verified → ∀ d, ds.head? = some d → d.2 = decision

end Deliveries

/-! ## The status after deliveries -/

section Overwritten

variable {α σ : Type} (f : α → σ) (start : σ)

/-- What is left in a cell that everything overwrites. -/
def lastWritten (xs : List α) : σ := (xs.getLast?.map f).getD start

@[simp] theorem lastWritten_nil : lastWritten f start [] = start := rfl

@[simp] theorem lastWritten_cons (x : α) (xs : List α) :
    lastWritten f start (x :: xs) = lastWritten f (f x) xs := by
  cases xs with
  | nil => rfl
  | cons y ys => simp [lastWritten, List.getLast?_cons]

@[simp] theorem lastWritten_concat (xs : List α) (x : α) :
    lastWritten f start (xs ++ [x]) = f x := by
  simp [lastWritten]

theorem lastWritten_of_getLast? {xs : List α} {x : α} (h : xs.getLast? = some x) :
    lastWritten f start xs = f x := by
  rw [lastWritten, h]
  rfl

end Overwritten

section Status

variable {μ : Type} {processWebhook : μ → WebhookResult} {db : KycDb} {id reference : String}
  {v : VerificationRecord}

theorem deliver_eq (db : KycDb) (d : Timestamp × μ) : deliver processWebhook db d =
    db.settle (processWebhook d.2).providerVerificationId ((processWebhook d.2).updates d.1) := rfl

/-- An update of rows by their reference leaves their ids. -/
theorem ofId_settle (updates : WebhookUpdates) (hrow : db.ofId id = [v])
    (hreference : v.providerReference = some reference) :
    (db.settle reference updates).ofId id = [updates.apply v] := by
  have hmap : (db.settle reference updates).ofId id = (db.ofId id).map fun w =>
      if w.providerReference = some reference then updates.apply w else w := by
    simp only [KycDb.settle, KycDb.ofId, Table.updateWhere, List.filter_map, decide_eq_true_eq]
    congr 1
    refine List.filter_congr fun w _ => ?_
    simp only [Function.comp_apply]
    split <;> rfl
  rw [hmap, hrow, List.map_singleton, if_pos hreference]

/-- The record has the status of the last message about it. -/
theorem status_deliverAll {ds : List (Timestamp × μ)} (hrow : db.ofId id = [v])
    (hreference : v.providerReference = some reference)
    (habout : ∀ d ∈ ds, (processWebhook d.2).providerVerificationId = reference) :
    ∃ w, (deliverAll processWebhook ds db).ofId id = [w] ∧
      w.status = lastWritten (fun d => statusOf processWebhook d.2) v.status ds := by
  induction ds generalizing db v with
  | nil => exact ⟨v, hrow, rfl⟩
  | cons d ds ih =>
      obtain ⟨hd, hds⟩ := List.forall_mem_cons.mp habout
      have hnext : (deliver processWebhook db d).ofId id =
          [((processWebhook d.2).updates d.1).apply v] := by
        rw [deliver_eq, hd]
        exact ofId_settle _ hrow hreference
      obtain ⟨w, hw, hstatus⟩ := ih hnext hreference hds
      exact ⟨w, hw, hstatus.trans (lastWritten_cons _ v.status d ds).symm⟩

theorem hasStatus_iff {ds : List (Timestamp × μ)} {status : VerificationStatus}
    (hrow : db.ofId id = [v]) (hreference : v.providerReference = some reference)
    (habout : ∀ d ∈ ds, (processWebhook d.2).providerVerificationId = reference) :
    HasStatus (deliverAll processWebhook ds db) id status ↔
      lastWritten (fun d => statusOf processWebhook d.2) v.status ds = status := by
  obtain ⟨w, hw, hstatus⟩ := status_deliverAll hrow hreference habout
  constructor
  · rintro ⟨w', hw', rfl⟩
    rw [hw] at hw'
    cases hw'
    exact hstatus.symm
  · rintro rfl
    exact ⟨w, hw, hstatus⟩

end Status

/-! ## Late messages -/

section Late

variable {μ : Type} {processWebhook : μ → WebhookResult} {db : KycDb} {id reference : String}
  {v : VerificationRecord} {earlier : List μ} {decision : μ} {ds : List (Timestamp × μ)}

namespace Conversation

variable (hc : Conversation processWebhook reference earlier decision ds)

include hc

/-- A delivered message is of before the decision, or is the decision. -/
theorem cases {d : Timestamp × μ} (hd : d ∈ ds) : d.2 ∈ earlier ∨ d.2 = decision := by
  simpa using hc.produced d hd

/-- The decision is not one of the messages before it. -/
theorem decision_notMem : decision ∉ earlier := by
  intro hmem
  have hfinal := hc.decides
  rw [hc.undecided decision hmem] at hfinal
  cases hfinal

/-- Only the decision can approve. -/
theorem eq_decision {d : Timestamp × μ} (hd : d ∈ ds)
    (hverified : statusOf processWebhook d.2 = .verified) : d.2 = decision := by
  rcases hc.cases hd with hearlier | hdecision
  · rw [hc.undecided _ hearlier] at hverified
    cases hverified
  · exact hdecision

/-- Something is delivered last. -/
theorem exists_last : ∃ d, ds.getLast? = some d ∧ d ∈ ds := by
  have hdelivered := hc.delivered decision (by simp)
  rcases List.eq_nil_or_concat ds with rfl | ⟨init, d, rfl⟩
  · cases hdelivered
  · exact ⟨d, by simp, by simp⟩

/-- What `HasStatus` says after some of the deliveries. -/
theorem hasStatus_iff (hrow : db.ofId id = [v]) (hreference : v.providerReference = some reference)
    {part : List (Timestamp × μ)} (hpart : ∀ d ∈ part, d.2 ∈ earlier ++ [decision])
    {status : VerificationStatus} :
    HasStatus (deliverAll processWebhook part db) id status ↔
      lastWritten (fun d => statusOf processWebhook d.2) v.status part = status :=
  Kyc.hasStatus_iff hrow hreference fun d hd => hc.about d.2 (hpart d hd)

end Conversation

/-- Where the decision has the last word, nothing is undone. -/
theorem DecisionLast.notUndone (hlast : DecisionLast processWebhook v.status decision ds)
    (hc : Conversation processWebhook reference earlier decision ds) (hrow : db.ofId id = [v])
    (hreference : v.providerReference = some reference) :
    NotUndone processWebhook db id earlier decision ds := by
  constructor
  · -- a record that is verified by then was so at the start, or by the decision just before
    rintro front d back rfl hearlier hverified
    exfalso
    have hfront : ∀ e ∈ front, e.2 ∈ earlier ++ [decision] := fun e he =>
      hc.produced e (List.mem_append_left _ he)
    rw [hc.hasStatus_iff hrow hreference hfront] at hverified
    suffices hdecision : d.2 = decision from hc.decision_notMem (hdecision ▸ hearlier)
    rcases List.eq_nil_or_concat front with rfl | ⟨init, e, rfl⟩
    · exact hlast.first hverified d rfl
    · rw [List.concat_eq_append, lastWritten_concat] at hverified
      have he : e.2 = decision := hc.eq_decision (by simp) hverified
      refine hlast.approval (he ▸ hverified) init e (d :: back) (by simp) he d (by simp)
  · rintro ordered hordered status hstatus
    have hproduced : ∀ d ∈ ordered, d.2 ∈ earlier ++ [decision] := fun d hd =>
      hordered ▸ List.mem_map_of_mem hd
    rw [hc.hasStatus_iff hrow hreference hproduced] at hstatus
    rw [hc.hasStatus_iff hrow hreference hc.produced, ← hstatus]
    -- both lists end with the decision
    obtain ⟨d, hd, -⟩ := hc.exists_last
    have hend : (ordered.map Prod.snd).getLast? = some decision := by simp [hordered]
    rw [List.getLast?_map, Option.map_eq_some_iff] at hend
    obtain ⟨e, he, hdecision⟩ := hend
    rw [lastWritten_of_getLast? _ _ hd, lastWritten_of_getLast? _ _ he, hlast.last d hd, hdecision]

section

variable (h : NotUndone processWebhook db id earlier decision ds)
  (hc : Conversation processWebhook reference earlier decision ds) (hrow : db.ofId id = [v])
  (hreference : v.providerReference = some reference)

include h hc hrow hreference

/-- A record that is verified is sent the decision alone. -/
theorem NotUndone.eq_decision {front : List (Timestamp × μ)} {d : Timestamp × μ}
    {back : List (Timestamp × μ)} (hds : ds = front ++ d :: back)
    (hverified : lastWritten (fun d => statusOf processWebhook d.2) v.status front = .verified) :
    d.2 = decision := by
  have hproduced : ∀ e ∈ front ++ [d], e.2 ∈ earlier ++ [decision] := by
    intro e he
    refine hc.produced e ?_
    rw [hds]
    simp only [List.mem_append, List.mem_cons, List.not_mem_nil, or_false] at he ⊢
    exact he.imp_right .inl
  have hfront : ∀ e ∈ front, e.2 ∈ earlier ++ [decision] := fun e he =>
    hproduced e (List.mem_append_left _ he)
  refine (hc.cases (hds ▸ by simp)).resolve_left fun hearlier => ?_
  have hpending : HasStatus (deliverAll processWebhook (front ++ [d]) db) id .pending := by
    rw [hc.hasStatus_iff hrow hreference hproduced, lastWritten_concat, hc.undecided _ hearlier]
  have hfinal := h.kept front d back hds hearlier
    ((hc.hasStatus_iff hrow hreference hfront).mpr hverified) .pending hpending
  cases hfinal

/-- Where nothing is undone, the decision has the last word. -/
theorem NotUndone.decisionLast : DecisionLast processWebhook v.status decision ds := by
  constructor
  · intro d hd
    -- in the order of production, the record ends with the decision
    have hordered : (earlier ++ [decision]).map (Prod.snd ∘ Prod.mk (0 : Timestamp)) =
        earlier ++ [decision] := List.map_id _
    rw [← List.map_map] at hordered
    have hproduced : ∀ e ∈ (earlier ++ [decision]).map (Prod.mk (0 : Timestamp)),
        e.2 ∈ earlier ++ [decision] := fun e he => hordered ▸ List.mem_map_of_mem he
    have hstatus : HasStatus (deliverAll processWebhook
        ((earlier ++ [decision]).map (Prod.mk (0 : Timestamp))) db) id
          (statusOf processWebhook decision) := by
      rw [hc.hasStatus_iff hrow hreference hproduced, List.map_append, List.map_singleton,
        lastWritten_concat]
    have hends := h.inOrder _ hordered _ hstatus
    rw [hc.hasStatus_iff hrow hreference hc.produced, lastWritten_of_getLast? _ _ hd] at hends
    refine (hc.cases (List.mem_of_getLast? hd)).resolve_left fun hearlier => ?_
    have hfinal := hc.decides
    rw [← hends, hc.undecided _ hearlier] at hfinal
    cases hfinal
  · intro happroves front d back hds hd
    induction back generalizing front d with
    | nil => simp
    | cons e rest ih =>
        have hsplit : ds = (front ++ [d]) ++ e :: rest := by simp [hds]
        have he : e.2 = decision := by
          refine h.eq_decision hc hrow hreference hsplit ?_
          rw [lastWritten_concat, hd, happroves]
        exact List.forall_mem_cons.mpr ⟨he, ih (front ++ [d]) e hsplit he⟩
  · intro hstart d hd
    obtain ⟨back, rfl⟩ := List.head?_eq_some_iff.mp hd
    exact h.eq_decision hc hrow hreference (List.nil_append _).symm hstart

end

/-- **Approvals stay.** Messages about a record leave an approval as it is, and end as if they had come
in order, exactly if the decision has the last word. -/
theorem not_undone_iff (hc : Conversation processWebhook reference earlier decision ds)
    (hrow : db.ofId id = [v]) (hreference : v.providerReference = some reference) :
    NotUndone processWebhook db id earlier decision ds ↔
      DecisionLast processWebhook v.status decision ds :=
  ⟨fun h => h.decisionLast hc hrow hreference, fun h => h.notUndone hc hrow hreference⟩

end Late

/-! ## A session of Veriff -/

/-- The record of a user who has begun a session. -/
def waitingRecord : VerificationRecord where
  id := "v"
  subjectType := .user
  subjectId := "u"
  provider := some "veriff"
  providerReference := some "session"
  status := .pending
  level := .none
  verifiedAt := none
  expiresAt := none
  metadata := .object []
  createdAt := 0
  updatedAt := 0

/-- The session is in review. -/
def inReview : VeriffEvent := ⟨"session", "in_progress", none⟩

/-- The session is approved. -/
def approved : VeriffEvent := ⟨"session", "completed", none⟩

/-- The review is told of twice, and then comes the approval. -/
theorem not_undone_inOrder :
    NotUndone Veriff.processWebhook ⟨[waitingRecord]⟩ "v" [inReview] approved
      [(1, inReview), (2, inReview), (3, approved)] := by
  have hconversation : Conversation Veriff.processWebhook "session" [inReview] approved
      [(1, inReview), (2, inReview), (3, approved)] := by
    constructor <;> decide
  refine (@not_undone_iff _ _ _ _ _ waitingRecord _ _ _ hconversation rfl rfl).mpr ?_
  refine ⟨?_, fun _ => ?_, fun h => absurd h (by decide)⟩
  · rintro d hd
    cases hd
    rfl
  · rintro front d back hds hd
    -- the approval is the third of three
    rcases front with _ | ⟨x, _ | ⟨y, _ | ⟨z, rest⟩⟩⟩
    · cases hds
      exact absurd hd (by decide)
    · cases hds
      exact absurd hd (by decide)
    · cases hds
      simp
    · cases rest <;> cases hds

/-- The review is told of after the approval, and the record is pending again. -/
theorem late_review_undoes :
    ¬ ∀ (db : KycDb) (id reference : String) (v : VerificationRecord) (earlier : List VeriffEvent)
      (decision : VeriffEvent) (ds : List (Timestamp × VeriffEvent)),
        Conversation Veriff.processWebhook reference earlier decision ds → db.ofId id = [v] →
          v.providerReference = some reference →
            NotUndone Veriff.processWebhook db id earlier decision ds := by
  intro hall
  have hconversation : Conversation Veriff.processWebhook "session" [inReview] approved
      [(1, approved), (2, inReview)] := by
    constructor <;> decide
  have hundone := hall ⟨[waitingRecord]⟩ "v" "session" waitingRecord [inReview] approved
    [(1, approved), (2, inReview)] hconversation rfl rfl
  have hfinal := hundone.kept [(1, approved)] (2, inReview) [] rfl (by decide) ⟨_, rfl, rfl⟩ .pending
    ⟨_, rfl, rfl⟩
  cases hfinal

end ThalosBackend.Kyc
