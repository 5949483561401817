import ThalosBackend.Agreements.AnsweringDb
import ThalosBackend.Agreements.OperationRows
import ThalosBackend.Library.CallHistory
import ThalosBackend.Library.CallThreads

/-!
# Requests that interleave

Requests on the agreements run at the same time. Each query is atomic: it is answered, or it fails and
changes nothing, and between two queries of one request any number of queries of others may come. A
request carries what its queries were answered so far, and the store records every row an update
rewrites, for whom, and the row that one had read last.

The store at the beginning is whatever other requests have left.
-/

set_option autoImplicit false

namespace ThalosBackend.Agreements

open Js (FloatArithmetic Timestamp Value)
open Calls (Answered Follows Move Serving Task)
open Threads (Config Label)

/-! ## Queries -/

/-- A query is answered, or fails. -/
inductive QueryAct where
  | answer
  | fail
  deriving DecidableEq

def QueryAct.exec (act : QueryAct) (c : AgreementCall) (db : AgreementDb) (x : c.reply)
    (db' : AgreementDb) : Prop :=
  match act with
  | .answer => Answers c db x db'
  | .fail => Fails c db x db'

theorem QueryAct.exec.executes {act : QueryAct} {c : AgreementCall} {db db' : AgreementDb}
    {x : c.reply} (h : act.exec c db x db') : Executes c db x db' := by
  cases act with
  | answer => exact .inl h
  | fail => exact .inr h

/-- The queries of a request so far and their replies, the latest first. -/
abbrev QueryHistory := Answered AgreementCall AgreementCall.reply

/-- The row a request has read last, by `single` or under a contract id. -/
def lastRead : QueryHistory → Option Agreement
  | [] => none
  | ⟨c, x⟩ :: history =>
    match c, x with
    | .getAgreement _, .ok a => some a
    | .findByContract _, .ok found => found
    | _, _ => lastRead history

/-- What an update of agreements sets. -/
def AgreementCall.rowUpdates : AgreementCall → Option AgreementUpdates
  | .updateAgreement _ updates | .updateByContract _ updates
  | .changeStatusByContract _ _ updates => some updates
  | _ => none

/-- The rows an update rewrites when it is answered. -/
def AgreementCall.hits (c : AgreementCall) (db : AgreementDb) : List Agreement :=
  match c with
  | .updateAgreement id _ => db.agreements.filter fun a => a.id = id
  | .updateByContract contractId _ => db.byContract contractId
  -- several rows are too many, and the update is rolled back
  | .changeStatusByContract contractId target _ =>
    (Table.sole (db.agreements.filter (matchesStatusUpdate contractId target))).toList
  | _ => []

/-- The call adds a row or removes one. -/
def AgreementCall.movesRows : AgreementCall → Bool
  | .insertAgreement _ | .deleteAgreement _ => true
  | _ => false

section Hits

variable {c : AgreementCall} {db db' : AgreementDb} {x : c.reply} {a a' : Agreement}

/-- Only rows that are there are rewritten. -/
theorem mem_of_hits (h : a ∈ c.hits db) : a ∈ db.agreements := by
  cases c with
  | updateAgreement id updates => exact (List.mem_filter.mp h).1
  | updateByContract contractId updates => exact (List.mem_filter.mp h).1
  | changeStatusByContract contractId target updates =>
      have hsole := Table.sole_eq_some.mp (Option.mem_toList.mp h)
      have hmem := List.mem_singleton_self a
      rw [← hsole] at hmem
      exact (List.mem_filter.mp hmem).1
  | _ => cases h

/-- An update of the table leaves a row alone, or rewrites it. -/
theorem updateAgreements_row {p : Agreement → Bool} {updates : AgreementUpdates}
    (h : a' ∈ (db.updateAgreements p updates).agreements) :
    (a' ∈ db.agreements ∧ a' ∉ db.agreements.filter p) ∨
      ∃ a ∈ db.agreements.filter p, a' = a.apply updates := by
  obtain ⟨a, ha, rfl⟩ := Table.mem_updateWhere.mp h
  cases hp : p a with
  | false =>
      refine .inl ⟨by simpa using ha, fun hmem => ?_⟩
      simp [hp] at hmem
  | true => exact .inr ⟨a, List.mem_filter.mpr ⟨ha, hp⟩, by simp⟩

/-- A row after an answered query that moves no rows: one that the query left alone, or one that it
rewrote. -/
theorem Answers.row (h : Answers c db x db') (hc : c.movesRows = false)
    (ha' : a' ∈ db'.agreements) : (a' ∈ db.agreements ∧ a' ∉ c.hits db) ∨
      ∃ a ∈ c.hits db, ∃ updates, c.rowUpdates = some updates ∧ a' = a.apply updates := by
  cases c with
  | insertAgreement new => cases hc
  | deleteAgreement id => cases hc
  | updateAgreement id updates =>
      obtain ⟨-, rfl⟩ := h
      rcases updateAgreements_row ha' with hkept | ⟨a, ha, heq⟩
      · exact .inl hkept
      · exact .inr ⟨a, ha, updates, rfl, heq⟩
  | updateByContract contractId updates =>
      obtain ⟨-, rfl⟩ := h
      rcases updateAgreements_row ha' with hkept | ⟨a, ha, heq⟩
      · exact .inl hkept
      · exact .inr ⟨a, ha, updates, rfl, heq⟩
  | changeStatusByContract contractId target updates =>
      simp only [Answers] at h
      simp only [AgreementCall.hits]
      split at h
      · rename_i hnone
        obtain ⟨-, rfl⟩ := h
        exact .inl ⟨ha', by simp [hnone, Table.sole]⟩
      · rename_i b hb
        obtain ⟨-, rfl⟩ := h
        rcases updateAgreements_row ha' with ⟨hkept, hnot⟩ | ⟨a, ha, heq⟩
        · rw [hb] at hnot
          exact .inl ⟨hkept, by rw [hb]; exact hnot⟩
        · rw [hb] at ha
          exact .inr ⟨a, by rw [hb]; exact ha, updates, rfl, heq⟩
      · rename_i hnil hone
        obtain ⟨-, rfl⟩ := h
        refine .inl ⟨ha', fun hmem => ?_⟩
        exact hone _ (Table.sole_eq_some.mp (Option.mem_toList.mp hmem))
  | _ =>
      have hsame := Executes.agreements (.inl h) rfl
      rw [hsame] at ha'
      exact .inl ⟨ha', List.not_mem_nil⟩

end Hits

/-! ## The store and its record -/

/-- A row an update has rewritten: for whom, the row that one had read last, and the row as it was. -/
structure RowWrite where
  operation : Operation
  seen : Option Agreement
  before : Agreement
  updates : AgreementUpdates

/-- The row as it became. -/
def RowWrite.after (w : RowWrite) : Agreement := w.before.apply w.updates

/-- The tables, and the rows that were rewritten, the latest first. -/
structure AgreementStore where
  db : AgreementDb
  writes : List RowWrite

/-- What an answered query adds to the record. -/
def AgreementCall.written (c : AgreementCall) (o : Operation) (history : QueryHistory)
    (db : AgreementDb) : List RowWrite :=
  match c.rowUpdates with
  | some updates => (c.hits db).map fun a => ⟨o, lastRead history, a, updates⟩
  | none => []

theorem mem_written {c : AgreementCall} {o : Operation} {history : QueryHistory} {db : AgreementDb}
    {w : RowWrite} : w ∈ c.written o history db ↔ w.before ∈ c.hits db ∧
      c.rowUpdates = some w.updates ∧ w.operation = o ∧ w.seen = lastRead history := by
  unfold AgreementCall.written
  split
  · rename_i updates hupdates
    rw [List.mem_map]
    constructor
    · rintro ⟨a, ha, rfl⟩
      exact ⟨ha, hupdates, rfl, rfl⟩
    · rintro ⟨ha, hw, rfl, hseen⟩
      rw [hupdates] at hw
      exact ⟨w.before, ha, by rw [Option.some.inj hw, ← hseen]⟩
  · rename_i hnone
    simp [hnone]

/-! ## Interleavings -/

/-- Which requests come, and on what tables. -/
structure Traffic where
  serves : AgreementRequest → Bool
  startsFrom : AgreementDb → Prop

/-- A request of one of the kinds that come. -/
structure Served (T : Traffic) where
  operation : Operation
  isServed : T.serves operation.request = true

/-- What is left of a request, with the history of its queries. -/
abbrev TracedProgram := Calls (HttpException × QueryHistory) (AgreementCall × QueryHistory)
  (fun c => c.1.reply) (AgreementAnswer × QueryHistory)

variable (F : FloatArithmetic) (T : Traffic)

/-- The requests, at the same time. -/
def interleaving : Serving (Served T) (HttpException × QueryHistory) (AgreementCall × QueryHistory)
    (fun c => c.1.reply) (AgreementAnswer × QueryHistory) AgreementStore QueryAct Empty where
  init s := T.startsFrom s.db ∧ s.writes = []
  program req := Calls.traced (req.operation.program F) []
  exec act req c s x s' := act.exec c.1 s.db x s'.db ∧
    s'.writes = match act with
      | .answer => c.1.written req.operation c.2 s.db ++ s.writes
      | .fail => s.writes
  env b _ _ := nomatch b

variable {F T} in
/-- A query that fails changes nothing. -/
theorem exec_fail {req : Served T} {c : AgreementCall × QueryHistory} {s s' : AgreementStore}
    {x : c.1.reply} (h : (interleaving F T).exec .fail req c s x s') : s' = s := by
  obtain ⟨⟨-, -, hdb⟩, hwrites⟩ := h
  cases s'
  cases hdb
  cases hwrites
  rfl

/-- A request in progress. -/
abbrev AgreementTask := Task (Served T) (HttpException × QueryHistory)
  (AgreementCall × QueryHistory) (fun c => c.1.reply) (AgreementAnswer × QueryHistory)

abbrev AgreementConfig := Config AgreementStore ℕ (AgreementTask T)

abbrev AgreementLabel := Label ℕ (AgreementTask T) QueryAct Empty

/-- The step system of the interleavings. -/
def interleavingSystem : StepSystem (AgreementConfig T) (AgreementLabel T) :=
  (interleaving F T).threads.system ℕ

/-! ## What requests in progress still ask for -/

section Disciplined

variable {F T} {allowed : (c : AgreementCall) → c.reply → Prop}
  {ok : Operation → AgreementCall → QueryHistory → Prop}
  {post : Operation → AgreementAnswer → QueryHistory → Prop} {c c' : AgreementConfig T}
  {l : AgreementLabel T}

/-- What is left of every request keeps to a rule about its queries and their history. -/
def Disciplined (allowed : (c : AgreementCall) → c.reply → Prop)
    (ok : Operation → AgreementCall → QueryHistory → Prop)
    (post : Operation → AgreementAnswer → QueryHistory → Prop) (c : AgreementConfig T) : Prop :=
  ∀ t k, c.threads t = some k → ∃ (p : AgreementProgram AgreementAnswer) (history : QueryHistory),
    k.rest = Calls.traced p history ∧
      Follows allowed (ok k.request.operation) (post k.request.operation) p history

theorem disciplined_init (h : (interleavingSystem F T).init c) : Disciplined allowed ok post c := by
  intro t k hk
  rw [h.2 t] at hk
  cases hk

/-- The next query of a request is permitted, and what follows it knows of it. -/
theorem Disciplined.next (h : Disciplined allowed ok post c) {t : ℕ} {req : Served T}
    {call : AgreementCall} {history : QueryHistory} {cont : call.reply → TracedProgram}
    (hk : c.threads t = some ⟨req, .call (call, history) cont⟩) :
    ok req.operation call history ∧ ∀ x, allowed call x →
      ∃ p, cont x = Calls.traced p (⟨call, x⟩ :: history) ∧
        Follows allowed (ok req.operation) (post req.operation) p (⟨call, x⟩ :: history) := by
  obtain ⟨p, history', hrest, hfollows⟩ := h t _ hk
  obtain ⟨rfl, next, rfl, rfl⟩ := Calls.traced_eq_call hrest.symm
  obtain ⟨hc, hnext⟩ := Calls.follows_call.mp hfollows
  exact ⟨hc, fun x hx => ⟨next x, rfl, hnext x hx⟩⟩

/-- A request that has ended with an answer knows what its program promises. -/
theorem Disciplined.answered (h : Disciplined allowed ok post c) {t : ℕ} {req : Served T}
    {answer : AgreementAnswer} {history : QueryHistory}
    (hk : c.threads t = some ⟨req, .done (answer, history)⟩) :
    post req.operation answer history := by
  obtain ⟨p, history', hrest, hfollows⟩ := h t _ hk
  obtain ⟨rfl, rfl⟩ := Calls.traced_eq_done hrest.symm
  exact Calls.follows_done_iff.mp hfollows

/-- A step keeps to the rule that every program follows. -/
theorem Disciplined.step (h : Disciplined allowed ok post c)
    (hprogram : ∀ o : Operation, T.serves o.request = true →
      Follows allowed (ok o) (post o) (o.program F) [])
    (hallowed : ∀ (act : QueryAct) (call : AgreementCall) (x : call.reply) (db' : AgreementDb),
      act.exec call c.shared.db x db' → allowed call x)
    (hstep : (interleavingSystem F T).step c l c') : Disciplined allowed ok post c' := by
  intro t' k hk'
  cases Calls.step_cases hstep with
  | start t req hfree =>
      rcases Threads.update_eq_some hk' with ⟨-, h'⟩ | ⟨-, h'⟩
      · cases h'
        exact ⟨_, [], rfl, hprogram req.operation req.isServed⟩
      · exact h t' k h'
  | act t act req call cont x s hk hexec =>
      rcases Threads.update_eq_some hk' with ⟨-, h'⟩ | ⟨-, h'⟩
      · cases h'
        obtain ⟨p, hp, hfollows⟩ := (h.next hk).2 x (hallowed act call.1 x s.db hexec.1)
        exact ⟨p, _, hp, hfollows⟩
      · exact h t' k h'
  | env b => exact nomatch b

variable (F) in
/-- How a request has come to its next query in one step: it has just begun, it has got the reply to
the query before, another request made a step, or nobody touched the store. -/
inductive AtQuery (c c' : AgreementConfig T) (l : AgreementLabel T) (t : ℕ)
    (req : Served T) (call : AgreementCall) (history : QueryHistory)
    (cont : call.reply → TracedProgram) : Prop where
  | begun : c'.shared = c.shared → history = [] → AtQuery c c' l t req call history cont
  | replied (act : QueryAct) (before : AgreementCall × QueryHistory)
      (next : before.1.reply → TracedProgram) (x : before.1.reply) : l = .act t act →
      history = ⟨before.1, x⟩ :: before.2 → c.threads t = some ⟨req, .call before next⟩ →
      (interleaving F T).exec act req before c.shared x c'.shared →
      AtQuery c c' l t req call history cont
  | other (t' : ℕ) (act : QueryAct) (req' : Served T) (before : AgreementCall × QueryHistory)
      (next : before.1.reply → TracedProgram) (x : before.1.reply) : l = .act t' act → t ≠ t' →
      c.threads t = some ⟨req, .call (call, history) cont⟩ →
      c.threads t' = some ⟨req', .call before next⟩ →
      (interleaving F T).exec act req' before c.shared x c'.shared →
      AtQuery c c' l t req call history cont
  | kept : c'.shared = c.shared → c.threads t = some ⟨req, .call (call, history) cont⟩ →
      AtQuery c c' l t req call history cont

theorem Disciplined.atQuery (h : Disciplined allowed ok post c)
    (hallowed : ∀ (act : QueryAct) (call : AgreementCall) (x : call.reply) (db' : AgreementDb),
      act.exec call c.shared.db x db' → allowed call x)
    (hstep : (interleavingSystem F T).step c l c') {t : ℕ} {req : Served T}
    {call : AgreementCall} {history : QueryHistory} {cont : call.reply → TracedProgram}
    (hk : c'.threads t = some ⟨req, .call (call, history) cont⟩) :
    AtQuery F c c' l t req call history cont := by
  cases Calls.step_cases hstep with
  | start t' req' hfree =>
      rcases Threads.update_eq_some hk with ⟨-, h'⟩ | ⟨-, h'⟩
      · obtain ⟨rfl, hrest⟩ := Calls.Task.mk.inj (Option.some.inj h')
        exact .begun rfl (Calls.traced_eq_call hrest).1
      · exact .kept rfl h'
  | act t' act req' before next x s hk' hexec =>
      rcases Threads.update_eq_some hk with ⟨rfl, h'⟩ | ⟨hne, h'⟩
      · obtain ⟨rfl, hrest⟩ := Calls.Task.mk.inj (Option.some.inj h')
        obtain ⟨p, hp, -⟩ := (h.next hk').2 x (hallowed act before.1 x s.db hexec.1)
        rw [hp] at hrest
        exact .replied act before next x rfl (Calls.traced_eq_call hrest).1 hk' hexec
      · exact .other t' act req' before next x rfl hne h' hk' hexec
  | env b => exact nomatch b

end Disciplined

/-! ## A database that answers -/

/-- The answering database, which keeps the record. -/
def AgreementStore.answer (req : Served T) (c : AgreementCall × QueryHistory)
    (s : AgreementStore) : c.1.reply × AgreementStore :=
  ((s.db.answer c.1).1,
    { db := (s.db.answer c.1).2
      writes := c.1.written req.operation c.2 s.db ++ s.writes })

theorem AgreementStore.exec_answer (req : Served T) (c : AgreementCall × QueryHistory)
    (s : AgreementStore) : (interleaving F T).exec .answer req c s (s.answer T req c).1
      (s.answer T req c).2 :=
  ⟨s.db.answers_answer c.1, rfl⟩

/-- The requests that have begun, and the store. -/
abbrev AgreementState := AgreementStore × List (AgreementTask T)

/-- What a schedule leads to, from a store without requests, if every move meets the check. -/
def playFrom (check : AgreementStore → List (AgreementTask T) → Move (Served T) → Bool)
    (s : AgreementStore) (moves : List (Move (Served T))) : Option (AgreementState T) :=
  (interleaving F T).play (fun req c s => s.answer T req c) check moves (s, [])

variable {F T}

theorem reachable_playFrom {guard : AgreementConfig T → AgreementLabel T → Prop}
    {check : AgreementStore → List (AgreementTask T) → Move (Served T) → Bool}
    {s : AgreementStore} {moves : List (Move (Served T))} {state : AgreementState T}
    (hstart : T.startsFrom s.db) (hwrites : s.writes = [])
    (hcheck : ∀ s tasks m, check s tasks m = true → guard (Calls.begun s tasks)
      (m.label (interleaving F T) .answer tasks))
    (h : playFrom F T check s moves = some state) :
    ((interleavingSystem F T).restrict guard).Reachable (Calls.begun state.1 state.2) := by
  refine Calls.reachable_play (AgreementStore.exec_answer F T) hcheck (.init ?_) h
  exact ⟨⟨hstart, hwrites⟩, fun _ => rfl⟩

/-- Without a check, what a schedule leads to is reachable. -/
theorem reachable_playAll {s : AgreementStore} {moves : List (Move (Served T))}
    {state : AgreementState T} (hstart : T.startsFrom s.db) (hwrites : s.writes = [])
    (h : playFrom F T (fun _ _ _ => true) s moves = some state) :
    (interleavingSystem F T).Reachable (Calls.begun state.1 state.2) := by
  have hreach : ((interleavingSystem F T).restrict fun _ _ => True).Reachable
      (Calls.begun state.1 state.2) :=
    reachable_playFrom hstart hwrites (fun _ _ _ _ => trivial) h
  exact hreach.of_restrict

end ThalosBackend.Agreements
