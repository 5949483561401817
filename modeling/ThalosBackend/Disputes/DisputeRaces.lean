import ThalosBackend.Agreements.AnsweringDb
import ThalosBackend.Disputes.DisputeQueries

/-!
# Disputes at the same time

Neither the tables nor the operations keep two requests apart: both may find no live dispute and open
one, or find a dispute unresolved and resolve it. A resolution is stored before its dispute is marked,
so it may be stored twice in between as well. A search that fails is taken for one that found nothing,
and nobody looks whether the mark was set.

In the runs in which no request writes while another one is about to make a conflicting write, no
cancelled dispute is resolved, and neither that search nor that mark fails, an agreement has one live
dispute at most, a dispute one resolution at most, and no dispute is both resolved and cancelled.
-/

set_option autoImplicit false

namespace ThalosBackend.Disputes

open Js (FloatArithmetic)
open Agreements

/-! ## The requests -/

/-- An agreement has one live dispute at most, and a dispute one resolution at most. -/
structure DisputesUnique (db : AgreementDb) : Prop where
  live : ∀ agreementId, (db.liveDisputes agreementId).length ≤ 1
  single : ∀ disputeId, (db.resolutions.filter fun r => r.disputeId = disputeId).length ≤ 1

/-- The requests come on tables that are in order: the ids are keys, and what has a resolution is
resolved. -/
def disputeTraffic : Traffic where
  serves := AgreementRequest.opensOrCloses
  startsFrom db := Table.Unique Dispute.id db.disputes ∧ DisputesUnique db ∧
    ∀ r ∈ db.resolutions, DisputeIs db r.disputeId .resolved

abbrev DisputeTask := AgreementTask disputeTraffic

abbrev DisputeConfig := AgreementConfig disputeTraffic

/-- The request has resolved the dispute, and said so. -/
def HasResolved (disputeId : String) (k : DisputeTask) : Prop :=
  ∃ now userId dto resolution history,
    k.request.operation = ⟨now, .resolveDispute userId disputeId dto⟩ ∧
      k.rest = .done (.resolved ⟨some resolution, none⟩, history)

/-- The request has cancelled the dispute, and said so. -/
def HasCancelled (disputeId : String) (k : DisputeTask) : Prop :=
  ∃ now userId dto history, k.request.operation = ⟨now, .cancelDispute userId disputeId dto⟩ ∧
    k.rest = .done (.done ⟨true, none⟩, history)

/-- The disputes are unique, and none is both resolved and cancelled. -/
structure DisputesExclusive (c : DisputeConfig) : Prop extends DisputesUnique c.shared.db where
  exclusive : ∀ t t' k k' disputeId, c.threads t = some k → c.threads t' = some k' →
    HasResolved disputeId k → ¬ HasCancelled disputeId k'

/-- Nobody writes what another request has looked at for its own write, no cancelled dispute is
resolved, no search for a live dispute fails while there is one, and no mark fails. -/
def Undisturbed (c : DisputeConfig) : AgreementLabel disputeTraffic → Prop
  | .act t .answer => ∀ k w, c.threads t = some k → aboutToWrite k.rest = some w →
      (∀ t' k' w', t' ≠ t → c.threads t' = some k' → aboutToWrite k'.rest = some w' →
        w.conflicts w' = false) ∧
      ∀ disputeId, w = .resolves disputeId →
        ∀ d ∈ c.shared.db.disputes, d.id = disputeId → d.status ≠ .cancelled
  | .act t .fail => ∀ k, c.threads t = some k →
      (∀ disputeId, aboutToWrite k.rest ≠ some (.marks disputeId)) ∧
      ∀ agreementId history cont, k.rest = .call (.findLiveDispute agreementId, history) cont →
        c.shared.db.liveDisputes agreementId = []
  | _ => True

/-! ## What every run keeps -/

/-- Some request is about to mark the dispute. -/
def Marking (c : DisputeConfig) (disputeId : String) : Prop :=
  ∃ t k, c.threads t = some k ∧ aboutToWrite k.rest = some (.marks disputeId)

/-- The disputes whose resolution the request has stored. -/
def resolvedBy (k : DisputeTask) : List String :=
  (Calls.historyOf k.rest).filterMap storedResolution

/-- The disputes the request has cancelled. -/
def cancelledBy (k : DisputeTask) : List String :=
  (Calls.historyOf k.rest).filterMap storedCancellation

/-- The disputes are unique, every request finds what it relies on, each resolution is of a dispute
that is resolved or about to be marked, and a dispute that a request has resolved or cancelled is so. -/
structure DisputeInv (c : DisputeConfig) : Prop extends DisputesUnique c.shared.db where
  unique : Table.Unique Dispute.id c.shared.db.disputes
  relies : ∀ t k, c.threads t = some k → ∀ w, aboutToWrite k.rest = some w → w.Holds c.shared.db
  backed : ∀ r ∈ c.shared.db.resolutions,
    Marking c r.disputeId ∨ DisputeIs c.shared.db r.disputeId .resolved
  resolved : ∀ t k, c.threads t = some k → ∀ disputeId ∈ resolvedBy k,
    aboutToWrite k.rest = some (.marks disputeId) ∨ DisputeIs c.shared.db disputeId .resolved
  cancelled : ∀ t k, c.threads t = some k → ∀ disputeId ∈ cancelledBy k,
    DisputeIs c.shared.db disputeId .cancelled ∧ ¬ Marking c disputeId

/-- One query of a request, when nothing disturbs it: it leaves the disputes alone, or makes the write
the request was about to make. -/
structure Turn (c : DisputeConfig) (t : ℕ) (k k' : DisputeTask) (db' : AgreementDb)
    (o : Option DisputeWrite) : Prop where
  effect : DisputeEffect c.shared.db db' o
  about : ∀ w, o = some w → aboutToWrite k.rest = some w
  unmarked : ∀ disputeId, aboutToWrite k.rest = some (.marks disputeId) → o = some (.marks disputeId)
  undisturbed : ∀ w, o = some w → ∀ t' k' w', t' ≠ t → c.threads t' = some k' →
    aboutToWrite k'.rest = some w' → w.conflicts w' = false
  uncancelled : ∀ disputeId, o = some (.resolves disputeId) →
    ¬ DisputeIs c.shared.db disputeId .cancelled
  relies : ∀ w, aboutToWrite k'.rest = some w → w.Holds db'
  marks : ∀ disputeId, aboutToWrite k'.rest = some (.marks disputeId) ↔
    o = some (.resolves disputeId)
  resolved : ∀ disputeId ∈ resolvedBy k', disputeId ∈ resolvedBy k ∨ o = some (.resolves disputeId)
  cancelled : ∀ disputeId ∈ cancelledBy k', disputeId ∈ cancelledBy k ∨ o = some (.cancels disputeId)

section Turns

variable {c : DisputeConfig} {t : ℕ} {k k' : DisputeTask} {s : AgreementStore}
  {o : Option DisputeWrite} {disputeId : String}

/-- The configuration after a query of a request. -/
abbrev afterTurn (c : DisputeConfig) (t : ℕ) (k' : DisputeTask) (s : AgreementStore) :
    DisputeConfig :=
  ⟨s, Function.update c.threads t (some k')⟩

/-- Who is about to mark a dispute afterwards: the request itself, or another one that was before. -/
theorem marking_afterTurn (h : Marking (afterTurn c t k' s) disputeId) :
    aboutToWrite k'.rest = some (.marks disputeId) ∨ ∃ t₁ k₁, t₁ ≠ t ∧ c.threads t₁ = some k₁ ∧
      aboutToWrite k₁.rest = some (.marks disputeId) := by
  obtain ⟨t₁, k₁, hk₁, habout⟩ := h
  rcases Threads.update_eq_some hk₁ with ⟨-, heq⟩ | ⟨hne, hsame⟩
  · cases heq
    exact .inl habout
  · exact .inr ⟨t₁, k₁, hne, hsame, habout⟩

/-- Who was about to mark a dispute still is, or has marked it. -/
theorem Turn.marking (h : Turn c t k k' s.db o) (hI : DisputeInv c) (hk : c.threads t = some k)
    (hmarking : Marking c disputeId) :
    Marking (afterTurn c t k' s) disputeId ∨ DisputeIs s.db disputeId .resolved := by
  obtain ⟨t₁, k₁, hk₁, habout⟩ := hmarking
  by_cases hne : t₁ = t
  · subst hne
    rw [hk] at hk₁
    cases hk₁
    have heffect := h.effect
    rw [h.unmarked disputeId habout] at heffect
    exact .inr (heffect.marked (hI.relies t₁ k hk _ habout))
  · exact .inl ⟨t₁, k₁, (Function.update_of_ne hne ..).trans hk₁, habout⟩

/-- Where a resolution is stored, the dispute has none yet. -/
theorem Turn.no_resolution (h : Turn c t k k' s.db (some (.resolves disputeId)))
    (hI : DisputeInv c) (hk : c.threads t = some k) :
    ∀ r ∈ c.shared.db.resolutions, r.disputeId ≠ disputeId := by
  rintro r hr rfl
  have habout := h.about _ rfl
  have hunresolved := hI.relies t k hk _ habout
  rcases hI.backed r hr with ⟨t₁, k₁, hk₁, hmarks⟩ | hresolved
  · by_cases hne : t₁ = t
    · subst hne
      rw [hk] at hk₁
      cases hk₁
      rw [habout] at hmarks
      cases hmarks
    · have hconflict := h.undisturbed _ rfl t₁ k₁ _ hne hk₁ hmarks
      simp [DisputeWrite.conflicts, DisputeWrite.isResolution] at hconflict
  · obtain ⟨d, hd, hid⟩ := hresolved.exists_row
    exact Table.At.all hunresolved d hd hid (hresolved.all d hd hid)

theorem Turn.holds (h : Turn c t k k' s.db o) (hI : DisputeInv c) (hk : c.threads t = some k) :
    ∀ w, o = some w → w.Holds c.shared.db :=
  fun w hw => hI.relies t k hk w (h.about w hw)

/-! ### The tables -/

theorem Turn.live (h : Turn c t k k' s.db o) (hI : DisputeInv c) (hk : c.threads t = some k)
    (agreementId : String) : (s.db.liveDisputes agreementId).length ≤ 1 := by
  by_cases hopens : o = some (.opens agreementId)
  · have heffect := h.effect
    rw [hopens] at heffect
    exact heffect.length_opened (h.holds hI hk _ hopens)
  · have hsublist := h.effect.live agreementId hopens
    exact hsublist.length_le.trans (hI.live agreementId)

theorem Turn.single (h : Turn c t k k' s.db o) (hI : DisputeInv c) (hk : c.threads t = some k)
    (disputeId : String) : (s.db.resolutions.filter fun r => r.disputeId = disputeId).length ≤ 1 := by
  rcases h.effect.resolutions with hsame | ⟨r, rfl, hnew⟩
  · rw [hsame]
    exact hI.single disputeId
  · rw [hnew, List.filter_append]
    by_cases hid : r.disputeId = disputeId
    · subst hid
      have hnone : (c.shared.db.resolutions.filter fun old => old.disputeId = r.disputeId) = [] := by
        refine List.filter_eq_nil_iff.mpr fun old hold heq => ?_
        exact h.no_resolution hI hk old hold (of_decide_eq_true heq)
      rw [hnone, List.nil_append]
      exact List.length_filter_le _ _
    · have hother : [r].filter (fun r => r.disputeId = disputeId) = [] := by simp [hid]
      rw [hother, List.append_nil]
      exact hI.single disputeId

theorem Turn.backed (h : Turn c t k k' s.db o) (hI : DisputeInv c) (hk : c.threads t = some k) :
    ∀ r ∈ s.db.resolutions,
      Marking (afterTurn c t k' s) r.disputeId ∨ DisputeIs s.db r.disputeId .resolved := by
  have hold : ∀ r ∈ c.shared.db.resolutions,
      Marking (afterTurn c t k' s) r.disputeId ∨ DisputeIs s.db r.disputeId .resolved := by
    intro r hr
    rcases hI.backed r hr with hmarking | hresolved
    · exact h.marking hI hk hmarking
    · exact .inr (h.effect.resolved (h.holds hI hk) hresolved)
  rcases h.effect.resolutions with hsame | ⟨new, rfl, hnew⟩
  · rw [hsame]
    exact hold
  · rw [hnew]
    intro r hr
    rcases List.mem_append.mp hr with hr | hr
    · exact hold r hr
    · obtain rfl := List.mem_singleton.mp hr
      exact .inl ⟨t, k', Function.update_self .., (h.marks _).mpr rfl⟩

/-! ### The requests -/

theorem Turn.relies_other (h : Turn c t k k' s.db o) (hI : DisputeInv c) {t₁ : ℕ} {k₁ : DisputeTask}
    (hne : t₁ ≠ t) (hk₁ : c.threads t₁ = some k₁) {w : DisputeWrite}
    (hw : aboutToWrite k₁.rest = some w) : w.Holds s.db :=
  (hI.relies t₁ k₁ hk₁ w hw).other h.effect fun w' hw' => h.undisturbed w' hw' t₁ k₁ w hne hk₁ hw

/-- What a request has resolved is resolved, or its mark comes next. -/
theorem Turn.resolved_self (h : Turn c t k k' s.db o) (hI : DisputeInv c)
    (hk : c.threads t = some k) (hmem : disputeId ∈ resolvedBy k') :
    aboutToWrite k'.rest = some (.marks disputeId) ∨ DisputeIs s.db disputeId .resolved := by
  rcases h.resolved disputeId hmem with hbefore | hnew
  · rcases hI.resolved t k hk disputeId hbefore with hmarks | hresolved
    · have heffect := h.effect
      rw [h.unmarked disputeId hmarks] at heffect
      exact .inr (heffect.marked (hI.relies t k hk _ hmarks))
    · exact .inr (h.effect.resolved (h.holds hI hk) hresolved)
  · exact .inl ((h.marks disputeId).mpr hnew)

/-- A dispute that is cancelled, and that nobody is about to mark, stays so. -/
theorem Turn.stays_cancelled (h : Turn c t k k' s.db o) (hk : c.threads t = some k)
    (hcancelled : DisputeIs c.shared.db disputeId .cancelled) (hmarking : ¬ Marking c disputeId) :
    DisputeIs s.db disputeId .cancelled ∧ ¬ Marking (afterTurn c t k' s) disputeId := by
  constructor
  · apply h.effect.at hcancelled
    · intro ho
      exact absurd ⟨t, k, hk, h.about _ ho⟩ hmarking
    · exact fun _ _ hstatus => hstatus
  · intro hafter
    rcases marking_afterTurn hafter with hself | ⟨t₁, k₁, hne, hk₁, habout⟩
    · exact h.uncancelled disputeId ((h.marks disputeId).mp hself) hcancelled
    · exact hmarking ⟨t₁, k₁, hk₁, habout⟩

theorem Turn.cancelled_self (h : Turn c t k k' s.db o) (hI : DisputeInv c)
    (hk : c.threads t = some k) (hmem : disputeId ∈ cancelledBy k') :
    DisputeIs s.db disputeId .cancelled ∧ ¬ Marking (afterTurn c t k' s) disputeId := by
  rcases h.cancelled disputeId hmem with hbefore | rfl
  · obtain ⟨hcancelled, hmarking⟩ := hI.cancelled t k hk disputeId hbefore
    exact h.stays_cancelled hk hcancelled hmarking
  · constructor
    · exact h.effect.cancelled (h.holds hI hk _ rfl)
    · intro hafter
      rcases marking_afterTurn hafter with hself | ⟨t₁, k₁, hne, hk₁, habout⟩
      · have hresolves := (h.marks disputeId).mp hself
        cases hresolves
      · have hconflict := h.undisturbed _ rfl t₁ k₁ _ hne hk₁ habout
        simp [DisputeWrite.conflicts, DisputeWrite.isResolution] at hconflict

/-- The invariant after a query. -/
theorem DisputeInv.turn (hI : DisputeInv c) (hk : c.threads t = some k)
    (h : Turn c t k k' s.db o) : DisputeInv (afterTurn c t k' s) := by
  refine { live := h.live hI hk, single := h.single hI hk, unique := h.effect.unique hI.unique,
           relies := ?_, backed := h.backed hI hk, resolved := ?_, cancelled := ?_ }
  · intro t₁ k₁ hk₁ w hw
    rcases Threads.update_eq_some hk₁ with ⟨-, heq⟩ | ⟨hne, hsame⟩
    · cases heq
      exact h.relies w hw
    · exact h.relies_other hI hne hsame hw
  · intro t₁ k₁ hk₁ disputeId hmem
    rcases Threads.update_eq_some hk₁ with ⟨-, heq⟩ | ⟨hne, hsame⟩
    · cases heq
      exact h.resolved_self hI hk hmem
    · rcases hI.resolved t₁ k₁ hsame disputeId hmem with hmarks | hresolved
      · exact .inl hmarks
      · exact .inr (h.effect.resolved (h.holds hI hk) hresolved)
  · intro t₁ k₁ hk₁ disputeId hmem
    rcases Threads.update_eq_some hk₁ with ⟨-, heq⟩ | ⟨hne, hsame⟩
    · cases heq
      exact h.cancelled_self hI hk hmem
    · obtain ⟨hcancelled, hmarking⟩ := hI.cancelled t₁ k₁ hsame disputeId hmem
      exact h.stays_cancelled hk hcancelled hmarking

end Turns

/-! ## Runs -/

/-- What is left of every request looks before it writes. -/
abbrev LooksEverywhere (c : DisputeConfig) : Prop :=
  Disciplined (fun _ _ => True) (fun _ => LooksFirst) Operation.Ends c

section Steps

variable {F : FloatArithmetic} {c c' : DisputeConfig} {l : AgreementLabel disputeTraffic} {t : ℕ}
  {req : Served disputeTraffic} {call : AgreementCall} {history : QueryHistory}
  {cont : call.reply → TracedProgram} {x : call.reply} {s : AgreementStore}

/-- What comes after a reply has looked at what it is about to write. -/
theorem ready_of_reply (hD : LooksEverywhere c)
    (hk : c.threads t = some ⟨req, .call (call, history) cont⟩) (x : call.reply) :
    Calls.historyOf (cont x) = ⟨call, x⟩ :: history ∧
      ∀ w, aboutToWrite (cont x) = some w → w.Ready (⟨call, x⟩ :: history) := by
  obtain ⟨p, hp, hfollows⟩ := (hD.next hk).2 x trivial
  rw [hp]
  exact ⟨Calls.historyOf_traced _ _, fun w hw => ready_of_aboutToWrite hfollows hw⟩

/-- A query that fails leaves nothing to write but the dispute its search has not found. -/
theorem turn_of_fail (hD : LooksEverywhere c) (hguard : Undisturbed c (.act t .fail))
    (hk : c.threads t = some ⟨req, .call (call, history) cont⟩)
    (hexec : (interleaving F disputeTraffic).exec .fail req (call, history) c.shared x s) :
    Turn c t ⟨req, .call (call, history) cont⟩ ⟨req, cont x⟩ s.db none := by
  obtain rfl := exec_fail hexec
  obtain ⟨⟨-, ⟨e, rfl⟩, -⟩, -⟩ := hexec
  obtain ⟨hmark, hsearch⟩ := hguard _ hk
  obtain ⟨hhistory, hready⟩ := ready_of_reply hD hk (.error e)
  obtain ⟨hstored, hcancelled⟩ := stored_of_error (c := call) e
  have hunmarked : ∀ disputeId, aboutToWrite (cont (.error e)) ≠ some (.marks disputeId) := by
    intro disputeId h
    rw [aboutToWrite_marks, hhistory, lastResolved, hstored] at h
    cases h
  refine { effect := .keeps rfl rfl, about := ?_, unmarked := ?_, undisturbed := ?_,
           uncancelled := ?_, relies := ?_, marks := ?_, resolved := ?_, cancelled := ?_ }
  · intro w h
    cases h
  · intro disputeId h
    exact absurd h (hmark disputeId)
  · intro w h
    cases h
  · intro disputeId h
    cases h
  · intro w hw
    have hlooked := hready w hw
    -- a failed search reads as one that found nothing; the other looks need data
    cases w with
    | opens agreementId =>
        obtain ⟨y, before, heq, -⟩ := hlooked
        cases heq
        exact hsearch agreementId history cont rfl
    | resolves disputeId =>
        obtain ⟨y, before, d, heq, hdata, -⟩ := hlooked
        cases heq
        cases hdata
    | cancels disputeId =>
        obtain ⟨y, before, d, heq, hdata, -⟩ := hlooked
        cases heq
        cases hdata
    | marks disputeId => exact absurd hw (hunmarked disputeId)
  · intro disputeId
    exact ⟨fun h => absurd h (hunmarked disputeId), fun h => by cases h⟩
  · intro disputeId hmem
    rw [resolvedBy, hhistory, List.filterMap_cons_none hstored] at hmem
    exact .inl hmem
  · intro disputeId hmem
    rw [cancelledBy, hhistory, List.filterMap_cons_none hcancelled] at hmem
    exact .inl hmem

/-- An answered search has found what the request relies on. -/
theorem holds_of_search {db db' : AgreementDb} {w : DisputeWrite} (hx : Answers call db x db')
    (hunique : Table.Unique Dispute.id db.disputes) (hlive : DisputesUnique db)
    (hready : w.Ready (⟨call, x⟩ :: history)) (hmarks : ∀ disputeId, w ≠ .marks disputeId) :
    w.Holds db' := by
  have hfound : ∀ disputeId d, Table.sole (db.disputes.filter fun d => d.id = disputeId) = some d →
      d.status ≠ .resolved →
      Table.At Dispute.id disputeId (fun d => d.status ≠ .resolved) db.disputes := by
    intro disputeId d hsole hunresolved
    obtain ⟨hmem, rfl⟩ := id_of_disputeAt hsole
    exact Table.At.of_unique hunique hmem hunresolved
  cases w with
  | opens agreementId =>
      obtain ⟨y, before, heq, hdata⟩ := hready
      cases heq
      obtain ⟨rfl, rfl⟩ := hx
      rw [data_maybeSingle] at hdata
      -- the search finds nothing where there is none, and fails where there are several
      match hrows : db'.liveDisputes agreementId with
      | [] => exact hrows
      | [d] => rw [hrows] at hdata; cases hdata
      | _ :: _ :: _ =>
          have hlength := hlive.live agreementId
          rw [hrows] at hlength
          simp at hlength
  | resolves disputeId =>
      obtain ⟨y, before, d, heq, hdata, hunresolved⟩ := hready
      cases heq
      obtain ⟨rfl, rfl⟩ := hx
      rw [data_maybeSingle] at hdata
      exact hfound disputeId d hdata hunresolved
  | cancels disputeId =>
      obtain ⟨y, before, d, heq, hdata, hunresolved⟩ := hready
      cases heq
      obtain ⟨rfl, rfl⟩ := hx
      rw [data_maybeSingle] at hdata
      exact hfound disputeId d hdata hunresolved
  | marks disputeId => exact absurd rfl (hmarks disputeId)

/-- An answered query makes the write that the request was about to make. -/
theorem turn_of_answer (hI : DisputeInv c) (hD : LooksEverywhere c)
    (hguard : Undisturbed c (.act t .answer))
    (hk : c.threads t = some ⟨req, .call (call, history) cont⟩)
    (hexec : (interleaving F disputeTraffic).exec .answer req (call, history) c.shared x s) :
    Turn c t ⟨req, .call (call, history) cont⟩ ⟨req, cont x⟩ s.db
      (aboutToWrite (.call (call, history) cont)) := by
  have hlooks := (hD.next hk).1
  obtain ⟨hhistory, hready⟩ := ready_of_reply hD hk x
  have heffect := effect_of_answers hexec.1 hlooks cont
  have hmarks : ∀ disputeId, aboutToWrite (cont x) = some (.marks disputeId) ↔
      aboutToWrite (.call (call, history) cont) = some (.resolves disputeId) := by
    intro disputeId
    rw [aboutToWrite_marks, hhistory]
    exact ⟨fun h => aboutToWrite_of_storedResolution hlooks h cont,
      storedResolution_of_answers hexec.1⟩
  refine { effect := heffect, about := fun _ h => h, unmarked := fun _ h => h, undisturbed := ?_,
           uncancelled := ?_, relies := ?_, marks := hmarks, resolved := ?_, cancelled := ?_ }
  · intro w hw
    exact (hguard _ w hk hw).1
  · intro disputeId hw hcancelled
    obtain ⟨d, hd, hid⟩ := hcancelled.exists_row
    exact (hguard _ _ hk hw).2 disputeId rfl d hd hid (hcancelled.all d hd hid)
  · intro w hw
    by_cases hmark : ∃ disputeId, w = .marks disputeId
    · -- the resolution was stored for a dispute that had been found
      obtain ⟨disputeId, rfl⟩ := hmark
      have hfound := hI.relies t _ hk _ ((hmarks disputeId).mp hw)
      exact heffect.at (Table.At.mono hfound fun _ _ => trivial) (fun _ _ _ => trivial)
        fun _ _ _ => trivial
    · refine holds_of_search hexec.1 hI.unique hI.toDisputesUnique (hready w hw) ?_
      exact fun disputeId h => hmark ⟨disputeId, h⟩
  · intro disputeId hmem
    rw [resolvedBy, hhistory] at hmem
    obtain ⟨entry, hentry, hstored⟩ := List.mem_filterMap.mp hmem
    rcases List.mem_cons.mp hentry with rfl | hentry
    · exact .inr (aboutToWrite_of_storedResolution hlooks hstored cont)
    · exact .inl (List.mem_filterMap.mpr ⟨entry, hentry, hstored⟩)
  · intro disputeId hmem
    rw [cancelledBy, hhistory] at hmem
    obtain ⟨entry, hentry, hstored⟩ := List.mem_filterMap.mp hmem
    rcases List.mem_cons.mp hentry with rfl | hentry
    · exact .inr (aboutToWrite_of_storedCancellation hlooks hstored cont)
    · exact .inl (List.mem_filterMap.mpr ⟨entry, hentry, hstored⟩)

theorem DisputeInv.init (h : (interleavingSystem F disputeTraffic).init c) : DisputeInv c := by
  obtain ⟨⟨⟨hunique, hcounts, hresolved⟩, -⟩, hidle⟩ := h
  refine { hcounts with unique := hunique, relies := ?_, backed := ?_, resolved := ?_,
                        cancelled := ?_ }
  · intro t k hk
    rw [hidle t] at hk
    cases hk
  · exact fun r hr => .inr (hresolved r hr)
  · intro t k hk
    rw [hidle t] at hk
    cases hk
  · intro t k hk
    rw [hidle t] at hk
    cases hk

/-- A request that begins has looked at nothing. -/
theorem DisputeInv.start (hI : DisputeInv c) (hfree : c.threads t = none) :
    DisputeInv (afterTurn c t ⟨req, Calls.traced (req.operation.program F) []⟩ c.shared) := by
  -- a program that begins has looked nowhere yet, so it is not about to write
  have hfresh : aboutToWrite (Calls.traced (req.operation.program F) []) = none := by
    by_contra hsome
    obtain ⟨w, hw⟩ := Option.ne_none_iff_exists'.mp hsome
    have hready := ready_of_aboutToWrite (program_looks F req.operation req.isServed) hw
    cases w with
    | opens agreementId => obtain ⟨y, before, heq, -⟩ := hready; cases heq
    | resolves disputeId => obtain ⟨y, before, d, heq, -⟩ := hready; cases heq
    | cancels disputeId => obtain ⟨y, before, d, heq, -⟩ := hready; cases heq
    | marks disputeId => cases hready
  refine { hI.toDisputesUnique with unique := hI.unique, relies := ?_, backed := ?_,
                                    resolved := ?_, cancelled := ?_ }
  · intro t₁ k₁ hk₁ w hw
    rcases Threads.update_eq_some hk₁ with ⟨-, heq⟩ | ⟨hne, hsame⟩
    · cases heq
      rw [hfresh] at hw
      cases hw
    · exact hI.relies t₁ k₁ hsame w hw
  · intro r hr
    rcases hI.backed r hr with ⟨t₁, k₁, hk₁, habout⟩ | hresolved
    · have hne : t₁ ≠ t := by
        rintro rfl
        rw [hfree] at hk₁
        cases hk₁
      exact .inl ⟨t₁, k₁, (Function.update_of_ne hne ..).trans hk₁, habout⟩
    · exact .inr hresolved
  · intro t₁ k₁ hk₁ disputeId hmem
    rcases Threads.update_eq_some hk₁ with ⟨-, heq⟩ | ⟨hne, hsame⟩
    · cases heq
      rw [resolvedBy, Calls.historyOf_traced] at hmem
      cases hmem
    · exact hI.resolved t₁ k₁ hsame disputeId hmem
  · intro t₁ k₁ hk₁ disputeId hmem
    rcases Threads.update_eq_some hk₁ with ⟨-, heq⟩ | ⟨hne, hsame⟩
    · cases heq
      rw [cancelledBy, Calls.historyOf_traced] at hmem
      cases hmem
    · obtain ⟨hcancelled, hmarking⟩ := hI.cancelled t₁ k₁ hsame disputeId hmem
      refine ⟨hcancelled, fun hafter => ?_⟩
      rcases marking_afterTurn hafter with hself | ⟨t₂, k₂, -, hk₂, habout⟩
      · rw [hfresh] at hself
        cases hself
      · exact hmarking ⟨t₂, k₂, hk₂, habout⟩

theorem DisputeInv.step (hI : DisputeInv c) (hD : LooksEverywhere c) (hguard : Undisturbed c l)
    (hstep : (interleavingSystem F disputeTraffic).step c l c') : DisputeInv c' := by
  cases Calls.step_cases hstep with
  | start t req hfree => exact hI.start hfree
  | act t act req before next x s hk hexec =>
      cases act with
      | answer => exact hI.turn hk (turn_of_answer hI hD hguard hk hexec)
      | fail => exact hI.turn hk (turn_of_fail hD hguard hk hexec)
  | env b => exact nomatch b

/-- A request that says it has resolved the dispute has left it resolved, and cancelled likewise. -/
theorem DisputeInv.exclusive (hI : DisputeInv c) (hD : LooksEverywhere c) : DisputesExclusive c := by
  refine { hI.toDisputesUnique with exclusive := ?_ }
  rintro t t' ⟨req, rest⟩ ⟨req', rest'⟩ disputeId hk hk' ⟨now, userId, dto, r, history, ho, rfl⟩
    ⟨now', userId', dto', history', ho', rfl⟩
  have hends := hD.answered hk
  have hends' := hD.answered hk'
  rw [ho] at hends
  rw [ho'] at hends'
  obtain ⟨hlast, hmem⟩ := hends
  obtain ⟨-, hmem'⟩ := hends'
  obtain ⟨hcancelled, -⟩ := hI.cancelled t' _ hk' disputeId (hmem' rfl)
  rcases hI.resolved t _ hk disputeId (hmem rfl) with hmarks | hresolved
  · rw [aboutToWrite_marks, Calls.historyOf, hlast] at hmarks
    cases hmarks
  · obtain ⟨d, hd, hid⟩ := hresolved.exists_row
    have hstatus := hresolved.all d hd hid
    rw [hcancelled.all d hd hid] at hstatus
    cases hstatus

end Steps

/-- **Disputes are unique.** In a run of openings, resolutions and cancellations in which no request
writes while another one is about to make a conflicting write, no cancelled dispute is resolved, and
neither a search for a live dispute nor the mark of a resolved one fails, an agreement has at most one
live dispute, a dispute at most one resolution, and no dispute is both resolved and cancelled. -/
theorem disputes_exclusive (F : FloatArithmetic) {c : DisputeConfig}
    (h : ((interleavingSystem F disputeTraffic).restrict Undisturbed).Reachable c) :
    DisputesExclusive c := by
  have hinv : DisputeInv c ∧ LooksEverywhere c := by
    apply StepSystem.invariant_of_steps
      (M := (interleavingSystem F disputeTraffic).restrict Undisturbed)
      (I := fun c => DisputeInv c ∧ LooksEverywhere c) _ _ h
    · exact fun _ hinit => ⟨DisputeInv.init hinit, disciplined_init hinit⟩
    · rintro c₁ l c₂ hreach ⟨hI, hD⟩ ⟨hguard, hstep⟩
      refine ⟨hI.step hD hguard hstep, ?_⟩
      exact hD.step (fun o ho => program_looks F o ho) (fun _ _ _ _ _ => trivial) hstep
  exact hinv.1.exclusive hinv.2

/-! ## Two requests on one dispute -/

section TwoRequests

open Calls (Move)

/-- An agreement of the two parties with this status, and these disputes. -/
def disputeStore (status : AgreementStatus) (disputes : List Dispute) : AgreementStore where
  db := storeWith twoParties
    [{ (sampleDto "10" none splitTen).row.row "a" 0 with status := some status.text }] disputes
  writes := []

/-- A dispute of the payer that the payee is to resolve. -/
def handedToPayee : Dispute :=
  { (NewDispute.mk "a" "P" "late" []).row "d" 0 with
    status := .underReview
    resolverWallet := some "Q" }

def openLate : Served disputeTraffic where
  operation := ⟨1, .openDispute "payer" ⟨"a", "P", "late", none⟩⟩
  isServed := rfl

def resolveByPayee : Served disputeTraffic where
  operation := ⟨1, .resolveDispute "payee" "d" ⟨"Q", .finite 40, .finite 60, none⟩⟩
  isServed := rfl

def cancelByPayer : Served disputeTraffic where
  operation := ⟨1, .cancelDispute "payer" "d" ⟨"P"⟩⟩
  isServed := rfl

/-- No other request is about to write, and no dispute has been cancelled. -/
def nobodyElseWrites (s : AgreementStore) (tasks : List DisputeTask) :
    Move (Served disputeTraffic) → Bool
  | .start _ => true
  | .next t => (tasks.zipIdx.all fun other => other.2 = t || (aboutToWrite other.1.rest).isNone) &&
      s.db.disputes.all fun d => d.status ≠ .cancelled

theorem undisturbed_of_nobodyElseWrites {F : FloatArithmetic} {s : AgreementStore}
    {tasks : List DisputeTask} {m : Move (Served disputeTraffic)}
    (h : nobodyElseWrites s tasks m = true) :
    Undisturbed (Calls.begun s tasks) (m.label (interleaving F disputeTraffic) .answer tasks) := by
  cases m with
  | start req => trivial
  | next t =>
      obtain ⟨hothers, hdisputes⟩ := Bool.and_eq_true_iff.mp h
      intro k w hk hw
      constructor
      · intro t' k' w' hne hk' hw'
        have hother : (k', t') ∈ tasks.zipIdx := List.mem_zipIdx_iff_getElem?.mpr hk'
        have hnone := List.all_eq_true.mp hothers _ hother
        simp [hne, hw'] at hnone
      · intro disputeId _ d hd _
        exact of_decide_eq_true (List.all_eq_true.mp hdisputes d hd)

/-- A cancellation that begins before the resolution and looks after it is refused. -/
theorem disputes_exclusive_resolved :
    ∃ c, ((interleavingSystem exactArithmetic disputeTraffic).restrict Undisturbed).Reachable c ∧
      DisputesExclusive c ∧ c.shared.db.disputes.map Dispute.status = [.resolved] ∧
      c.shared.db.resolutions.map DisputeResolution.disputeId = ["d"] := by
  have hrun : (playFrom exactArithmetic disputeTraffic nobodyElseWrites
      (disputeStore .disputed [handedToPayee])
      (.start resolveByPayee :: .start cancelByPayer :: .next 1 ::
        (List.replicate 9 (.next 0) ++ [.next 1]))).map (fun state =>
          (state.1.db.disputes.map Dispute.status,
            state.1.db.resolutions.map DisputeResolution.disputeId)) =
      some ([.resolved], ["d"]) := by decide +kernel
  obtain ⟨state, hstate, hrows⟩ := Option.map_eq_some_iff.mp hrun
  obtain ⟨hstatus, hresolutions⟩ := Prod.mk.inj hrows
  have hreach : ((interleavingSystem exactArithmetic disputeTraffic).restrict
      Undisturbed).Reachable (Calls.begun state.1 state.2) := by
    refine reachable_playFrom ⟨?_, ⟨?_, ?_⟩, ?_⟩ rfl
      (fun _ _ _ => undisturbed_of_nobodyElseWrites) hstate
    · exact List.nodup_singleton _
    · exact fun agreementId => List.length_filter_le _ _
    · exact fun disputeId => Nat.zero_le _
    · exact fun r hr => by cases hr
  exact ⟨_, hreach, disputes_exclusive exactArithmetic hreach, hstatus, hresolutions⟩

/-- Two requests that both find no live dispute open one each. -/
theorem not_disputes_exclusive :
    ¬ ∀ c, (interleavingSystem exactArithmetic disputeTraffic).Reachable c →
      DisputesExclusive c := by
  intro hall
  have hrun : ((playFrom exactArithmetic disputeTraffic (fun _ _ _ => true)
      (disputeStore .active [])
      (.start openLate :: .start openLate :: (List.replicate 4 (.next 0) ++
        List.replicate 5 (.next 1) ++ [.next 0]))).any fun state =>
      (state.1.db.liveDisputes "a").length = 2) = true := by decide +kernel
  obtain ⟨state, hstate, htwo⟩ := (Option.any_eq_true _ _).mp hrun
  have hreach : (interleavingSystem exactArithmetic disputeTraffic).Reachable
      (Calls.begun state.1 state.2) := by
    refine reachable_playAll ⟨?_, ⟨?_, ?_⟩, ?_⟩ rfl hstate
    · exact List.nodup_nil
    · exact fun agreementId => Nat.zero_le _
    · exact fun disputeId => Nat.zero_le _
    · exact fun r hr => by cases hr
  have hone := (hall _ hreach).live "a"
  rw [show (Calls.begun state.1 state.2).shared = state.1 from rfl, of_decide_eq_true htwo] at hone
  exact absurd hone (by decide)

end TwoRequests

end ThalosBackend.Disputes
