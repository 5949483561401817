import Mathlib.Data.Nat.Notation
import ThalosBackend.Library.Calls
import ThalosBackend.Library.Threads

/-!
# Programs of calls as threads

Requests are served by programs of atomic calls, and the calls of different requests interleave: a
thread is a request with what is left of its program, and a step of it is one call. A thread whose
program has ended stays, so that the answers of all requests can be read off a configuration.

`step_cases` says once what a step can be; invariants over all interleavings follow from it.
-/

set_option autoImplicit false

namespace Calls

open Threads (Config Label Step)

variable {ρ ε q : Type} {r : q → Type} {α σ act env : Type}

/-- A request in progress, or at its end. -/
structure Task (ρ ε q : Type) (r : q → Type) (α : Type) where
  request : ρ
  rest : Calls ε q r α

/-- The program has calls left. -/
def InProgress : Calls ε q r α → Prop
  | .call _ _ => True
  | _ => False

/-- The call a program is at. -/
def nextCall : Calls ε q r α → Option q
  | .call c _ => some c
  | _ => none

theorem nextCall_eq_none {p : Calls ε q r α} (h : ¬ InProgress p) : nextCall p = none := by
  cases p with
  | done a => rfl
  | fail e => rfl
  | call c next => exact absurd trivial h

/-- Along every path the program asks for permitted calls, until what is left of it is as `T` says. A
value it ends with before that meets the postcondition. -/
def Until (ok : q → Prop) (post : α → Prop) (T : Calls ε q r α → Prop) : Calls ε q r α → Prop
  | .done a => post a
  | .fail _ => True
  | .call c next => T (.call c next) ∨ (ok c ∧ ∀ x, Until ok post T (next x))

section Until

variable {ok : q → Prop} {post : α → Prop} {T : Calls ε q r α → Prop}

theorem until_call {c : q} {next : r c → Calls ε q r α} (h : T (.call c next)) :
    Until ok post T (.call c next) :=
  .inl h

theorem until_ask {c : q} {f : r c → Calls ε q r α} (hc : ok c) (hf : ∀ x, Until ok post T (f x)) :
    Until ok post T (ask c >>= f) :=
  .inr ⟨hc, hf⟩

theorem Until.mono {T' : Calls ε q r α → Prop} {p : Calls ε q r α} (h : Until ok post T p)
    (hT : ∀ p, T p → T' p) : Until ok post T' p := by
  induction p with
  | done a => exact h
  | fail e => trivial
  | call c next ih =>
      rcases h with h | ⟨hc, hnext⟩
      · exact .inl (hT _ h)
      · exact .inr ⟨hc, fun x => ih x (hnext x)⟩

/-- Permitted calls come before what a second statement does. -/
theorem Only.until_bind {β : Type} {p : Calls ε q r β} {f : β → Calls ε q r α} (h : Only ok p)
    (hf : ∀ a, Until ok post T (f a)) : Until ok post T (p >>= f) := by
  induction p with
  | done a => exact hf a
  | fail e => trivial
  | call c next ih => exact .inr ⟨h.1, fun x => ih x (h.2 x trivial)⟩

end Until

/-- Whatever the first call of the program does, the call, what is left of the program and the state
after it are as `Q` says. -/
def FirstCall (exec : (c : q) → σ → r c → σ → Prop) (Q : q → Calls ε q r α → σ → Prop) :
    Calls ε q r α → σ → Prop
  | .done _, _ => True
  | .fail _, _ => True
  | .call c next, s => ∀ x s', exec c s x s' → Q c (next x) s'

theorem firstCall_ask {exec : (c : q) → σ → r c → σ → Prop} {Q : q → Calls ε q r α → σ → Prop}
    {c : q} {f : r c → Calls ε q r α} {s : σ} (h : ∀ x s', exec c s x s' → Q c (f x) s') :
    FirstCall exec Q (ask c >>= f) s :=
  h

/-- Requests, the program of each, and what their calls do to the shared state. Requests begin at any
time, and run in any order, one call a step. -/
structure Serving (ρ ε q : Type) (r : q → Type) (α σ act env : Type) where
  init : σ → Prop
  program : ρ → Calls ε q r α
  exec : act → ρ → (c : q) → σ → r c → σ → Prop
  env : env → σ → σ → Prop

/-- The requests as threads. -/
def Serving.threads (S : Serving ρ ε q r α σ act env) :
    Threads.Program σ (Task ρ ε q r α) act env where
  init := S.init
  entry k := k.rest = S.program k.request
  act a s k s' next := ∃ c cont x, k.rest = .call c cont ∧ S.exec a k.request c s x s' ∧
    next = some ⟨k.request, cont x⟩
  env := S.env
  survives _ _ := true

variable {S : Serving ρ ε q r α σ act env} {τ : Type}

/-- The environment ends no request. -/
theorem filter_survives (threads : τ → Option (Task ρ ε q r α)) (b : env) :
    (fun t => (threads t).filter (S.threads.survives b)) = threads := by
  funext t
  cases h : threads t with
  | none => rfl
  | some k => rfl

/-- Every request has ended. -/
def AllEnded (c : Config σ τ (Task ρ ε q r α)) : Prop :=
  ∀ t k, c.threads t = some k → ¬ InProgress k.rest

variable [DecidableEq τ]

/-- The configuration in which this is left of a request, over another state. -/
abbrev after (c : Config σ τ (Task ρ ε q r α)) (t : τ) (req : ρ) (rest : Calls ε q r α) (s : σ) :
    Config σ τ (Task ρ ε q r α) :=
  ⟨s, Function.update c.threads t (some ⟨req, rest⟩)⟩

/-- What one step is: a request begins, a request makes its next call, or something happens around
the requests. -/
inductive ServingStep (S : Serving ρ ε q r α σ act env) (c : Config σ τ (Task ρ ε q r α)) :
    Label τ (Task ρ ε q r α) act env → Config σ τ (Task ρ ε q r α) → Prop where
  | start (t : τ) (req : ρ) : c.threads t = none →
      ServingStep S c (.start t ⟨req, S.program req⟩)
        ⟨c.shared, Function.update c.threads t (some ⟨req, S.program req⟩)⟩
  | act (t : τ) (a : act) (req : ρ) (call : q) (cont : r call → Calls ε q r α) (x : r call)
      (s : σ) : c.threads t = some ⟨req, .call call cont⟩ → S.exec a req call c.shared x s →
      ServingStep S c (.act t a) ⟨s, Function.update c.threads t (some ⟨req, cont x⟩)⟩
  | env (b : env) (s : σ) : S.env b c.shared s → ServingStep S c (.env b) ⟨s, c.threads⟩

theorem step_cases {c c' : Config σ τ (Task ρ ε q r α)} {l : Label τ (Task ρ ε q r α) act env}
    (h : Step S.threads c l c') : ServingStep S c l c' := by
  cases h with
  | @start t k hfree hentry =>
      obtain ⟨req, rest⟩ := k
      obtain rfl : rest = S.program req := hentry
      exact .start t req hfree
  | @act t a k s next hk hact =>
      obtain ⟨req, rest⟩ := k
      obtain ⟨call, cont, x, rfl, hexec, rfl⟩ := hact
      exact .act t a req call cont x s hk hexec
  | @env b s henv =>
      rw [filter_survives]
      exact .env b s henv

/-- A step of the requests is one of the threads. -/
theorem ServingStep.step {c c' : Config σ τ (Task ρ ε q r α)}
    {l : Label τ (Task ρ ε q r α) act env} (h : ServingStep S c l c') : Step S.threads c l c' := by
  cases h with
  | start t req hfree => exact .start hfree rfl
  | act t a req call cont x s hk hexec =>
      exact .act hk ⟨call, cont, x, rfl, hexec, rfl⟩
  | env b s henv =>
      have hstep := Step.env (P := S.threads) (c := c) henv
      rw [filter_survives] at hstep
      exact hstep

/-! ## Requests that ask for permitted calls -/

section Permitted

variable {guard : Config σ τ (Task ρ ε q r α) → Label τ (Task ρ ε q r α) act env → Prop}
  {ok : q → Prop} {c : Config σ τ (Task ρ ε q r α)}

/-- Whatever is left of a request asks for permitted calls, if the programs of those that may begin
do. -/
theorem only_of_reachable
    (hprogram : ∀ c t req, guard c (.start t ⟨req, S.program req⟩) → Only ok (S.program req))
    (h : ((S.threads.system τ).restrict guard).Reachable c) {t : τ} {k : Task ρ ε q r α}
    (hk : c.threads t = some k) : Only ok k.rest := by
  have hall : ∀ t k, c.threads t = some k → Only ok k.rest := by
    refine StepSystem.invariant_of_steps (M := (S.threads.system τ).restrict guard)
      (I := fun c => ∀ t k, c.threads t = some k → Only ok k.rest) ?_ ?_ h
    · rintro c ⟨-, hnone⟩ t k hk
      rw [hnone t] at hk
      cases hk
    · rintro c l c' - hI ⟨hguard, hstep⟩ t' k' hk'
      cases step_cases hstep with
      | start t req hfree =>
          rcases Threads.update_eq_some hk' with ⟨-, hself⟩ | ⟨-, hother⟩
          · cases hself
            exact hprogram c t req hguard
          · exact hI t' k' hother
      | act t a req call cont x s hk hexec =>
          rcases Threads.update_eq_some hk' with ⟨-, hself⟩ | ⟨-, hother⟩
          · cases hself
            exact (hI t _ hk).2 x trivial
          · exact hI t' k' hother
      | env b s henv => exact hI t' k' hk'
  exact hall t k hk

/-- The invariant rule for the shared state: it holds at the beginning, and permitted calls and what
happens around the requests keep it. -/
theorem shared_of_reachable {I : σ → Prop}
    (hprogram : ∀ c t req, guard c (.start t ⟨req, S.program req⟩) → Only ok (S.program req))
    (hinit : ∀ s, S.init s → I s)
    (hexec : ∀ c t a req call cont x s, guard c (.act t a) →
      c.threads t = some ⟨req, .call call cont⟩ → ok call → I c.shared →
      S.exec a req call c.shared x s → I s)
    (henv : ∀ b s s', I s → S.env b s s' → I s')
    (h : ((S.threads.system τ).restrict guard).Reachable c) : I c.shared := by
  refine StepSystem.invariant_of_steps (M := (S.threads.system τ).restrict guard)
    (I := fun c => I c.shared) ?_ ?_ h
  · rintro c ⟨hinitial, -⟩
    exact hinit _ hinitial
  · rintro c l c' hreach hI ⟨hguard, hstep⟩
    cases step_cases hstep with
    | start t req hfree => exact hI
    | act t a req call cont x s hk hx =>
        have honly : Only ok (.call call cont) := only_of_reachable hprogram hreach hk
        exact hexec c t a req call cont x s hguard hk honly.1 hI hx
    | env b s hb => exact henv b _ _ hI hb

end Permitted

/-! ## A request on its own -/

/-- Only this request has begun. -/
def alone (t : τ) (s : σ) (req : ρ) (rest : Calls ε q r α) : Config σ τ (Task ρ ε q r α) :=
  ⟨s, Function.update (fun _ => none) t (some ⟨req, rest⟩)⟩

variable {guard : Config σ τ (Task ρ ε q r α) → Label τ (Task ρ ε q r α) act env → Prop}
  {t : τ} {s s' : σ} {req : ρ}

@[simp] theorem alone_threads {rest : Calls ε q r α} :
    (alone t s req rest).threads t = some ⟨req, rest⟩ := by
  simp [alone]

theorem alone_start (hinit : S.init s)
    (hguard : guard ⟨s, fun _ => none⟩ (.start t ⟨req, S.program req⟩)) :
    ((S.threads.system τ).restrict guard).Reachable (alone t s req (S.program req)) := by
  have hbegin : ((S.threads.system τ).restrict guard).Reachable ⟨s, fun _ => none⟩ :=
    .init ⟨hinit, fun _ => rfl⟩
  exact hbegin.guarded (ServingStep.start t req rfl).step hguard

theorem alone_act {a : act} {call : q} {cont : r call → Calls ε q r α} {x : r call}
    (h : ((S.threads.system τ).restrict guard).Reachable (alone t s req (.call call cont)))
    (hexec : S.exec a req call s x s')
    (hguard : guard (alone t s req (.call call cont)) (.act t a)) :
    ((S.threads.system τ).restrict guard).Reachable (alone t s' req (cont x)) := by
  have hstep := h.guarded (ServingStep.act t a req call cont x s' alone_threads hexec).step hguard
  simpa [alone] using hstep

/-! ## Schedules

A schedule says who goes next, and every call is answered by a function of the state. What it leads
to can be computed. -/

/-- Who goes next: a new request, or one that has begun. -/
inductive Move (ρ : Type) where
  | start (req : ρ)
  | next (t : ℕ)

/-- The requests that have begun, in this order. -/
def begun (s : σ) (tasks : List (Task ρ ε q r α)) : Config σ ℕ (Task ρ ε q r α) :=
  ⟨s, fun t => tasks[t]?⟩

/-- The step a move is, if the request has a call left. -/
def Move.label (S : Serving ρ ε q r α σ act env) (a : act) (tasks : List (Task ρ ε q r α)) :
    Move ρ → Label ℕ (Task ρ ε q r α) act env
  | .start req => .start tasks.length ⟨req, S.program req⟩
  | .next t => .act t a

/-- The requests after a move. -/
def Serving.move (S : Serving ρ ε q r α σ act env) (answer : ρ → (c : q) → σ → r c × σ) :
    Move ρ → σ × List (Task ρ ε q r α) → σ × List (Task ρ ε q r α)
  | .start req, (s, tasks) => (s, tasks ++ [⟨req, S.program req⟩])
  | .next t, (s, tasks) =>
    match tasks[t]? with
    | some ⟨req, .call c cont⟩ =>
      ((answer req c s).2, tasks.set t ⟨req, cont (answer req c s).1⟩)
    | _ => (s, tasks)

/-- The requests after a schedule, if every move of it meets the check. -/
def Serving.play (S : Serving ρ ε q r α σ act env) (answer : ρ → (c : q) → σ → r c × σ)
    (check : σ → List (Task ρ ε q r α) → Move ρ → Bool) :
    List (Move ρ) → σ × List (Task ρ ε q r α) → Option (σ × List (Task ρ ε q r α))
  | [], state => some state
  | m :: ms, state =>
    if check state.1 state.2 m then S.play answer check ms (S.move answer m state) else none

section Schedules

variable {guard : Config σ ℕ (Task ρ ε q r α) → Label ℕ (Task ρ ε q r α) act env → Prop}
  {answer : ρ → (c : q) → σ → r c × σ} {a : act} {tasks : List (Task ρ ε q r α)}

theorem begun_start (s : σ) (k : Task ρ ε q r α) :
    begun s (tasks ++ [k]) =
      ⟨s, Function.update (begun s tasks).threads tasks.length (some k)⟩ := by
  simp only [begun, Threads.Config.mk.injEq, true_and]
  funext t
  rcases Nat.lt_trichotomy t tasks.length with h | rfl | h
  · rw [Function.update_of_ne (Nat.ne_of_lt h), List.getElem?_append_left h]
  · simp
  · rw [Function.update_of_ne (Nat.ne_of_gt h), List.getElem?_append_right (Nat.le_of_lt h)]
    rw [List.getElem?_eq_none (Nat.le_of_lt h), List.getElem?_eq_none_iff, List.length_singleton]
    omega

theorem begun_set (s s' : σ) {t : ℕ} {k : Task ρ ε q r α} (k' : Task ρ ε q r α)
    (hk : tasks[t]? = some k) :
    begun s' (tasks.set t k') = ⟨s', Function.update (begun s tasks).threads t (some k')⟩ := by
  simp only [begun, Threads.Config.mk.injEq, true_and]
  funext t'
  by_cases ht : t' = t
  · subst ht
    obtain ⟨hlt, -⟩ := List.getElem?_eq_some_iff.mp hk
    simp [hlt]
  · rw [Function.update_of_ne ht, List.getElem?_set_ne (Ne.symm ht)]

/-- No request of the list has a call left. -/
def allEnded (tasks : List (Task ρ ε q r α)) : Bool :=
  tasks.all fun k => (nextCall k.rest).isNone

theorem allEnded_begun {s : σ} (h : allEnded tasks = true) : AllEnded (begun s tasks) := by
  intro t k hk hprogress
  have hnone := List.all_eq_true.mp h k (List.mem_of_getElem? hk)
  cases hrest : k.rest with
  | done a =>
      rw [hrest] at hprogress
      exact hprogress
  | fail e =>
      rw [hrest] at hprogress
      exact hprogress
  | call c next =>
      rw [hrest] at hnone
      cases hnone

/-- A move is a step, or none. -/
theorem reachable_move {s : σ} (h : ((S.threads.system ℕ).restrict guard).Reachable (begun s tasks))
    (hexec : ∀ req c s, S.exec a req c s (answer req c s).1 (answer req c s).2) (m : Move ρ)
    (hguard : guard (begun s tasks) (m.label S a tasks)) :
    ((S.threads.system ℕ).restrict guard).Reachable
      (begun (S.move answer m (s, tasks)).1 (S.move answer m (s, tasks)).2) := by
  cases m with
  | start req =>
      have hfree : (begun s tasks).threads tasks.length = none := by simp [begun]
      simp only [Serving.move]
      rw [begun_start]
      exact h.guarded (ServingStep.start _ req hfree).step hguard
  | next t =>
      simp only [Serving.move]
      split
      · rename_i req c cont hk
        rw [begun_set s _ _ hk]
        exact h.guarded (ServingStep.act t a req c cont _ _ hk (hexec req c s)).step hguard
      · exact h

/-- What a schedule leads to is reachable, by steps that meet the guard if the check says so of states
with an invariant that the moves keep. -/
theorem reachable_play_keeping {I : σ → Prop} {check : σ → List (Task ρ ε q r α) → Move ρ → Bool}
    (hexec : ∀ req c s, S.exec a req c s (answer req c s).1 (answer req c s).2)
    (hcheck : ∀ s tasks m, I s → check s tasks m = true →
      guard (begun s tasks) (m.label S a tasks) ∧ I (S.move answer m (s, tasks)).1)
    {ms : List (Move ρ)} {state state' : σ × List (Task ρ ε q r α)} (hI : I state.1)
    (h : ((S.threads.system ℕ).restrict guard).Reachable (begun state.1 state.2))
    (hplay : S.play answer check ms state = some state') :
    ((S.threads.system ℕ).restrict guard).Reachable (begun state'.1 state'.2) := by
  induction ms generalizing state with
  | nil =>
      obtain rfl := Option.some.inj hplay
      exact h
  | cons m ms ih =>
      rw [Serving.play] at hplay
      split at hplay
      · rename_i hm
        obtain ⟨hguard, hkept⟩ := hcheck _ _ _ hI hm
        exact ih hkept (reachable_move h hexec m hguard) hplay
      · cases hplay

/-- What a schedule leads to is reachable, by steps that meet the guard if the check says so. -/
theorem reachable_play {check : σ → List (Task ρ ε q r α) → Move ρ → Bool}
    (hexec : ∀ req c s, S.exec a req c s (answer req c s).1 (answer req c s).2)
    (hcheck : ∀ s tasks m, check s tasks m = true → guard (begun s tasks) (m.label S a tasks))
    {ms : List (Move ρ)} {state state' : σ × List (Task ρ ε q r α)}
    (h : ((S.threads.system ℕ).restrict guard).Reachable (begun state.1 state.2))
    (hplay : S.play answer check ms state = some state') :
    ((S.threads.system ℕ).restrict guard).Reachable (begun state'.1 state'.2) :=
  reachable_play_keeping (I := fun _ => True) hexec
    (fun s tasks m _ hm => ⟨hcheck s tasks m hm, trivial⟩) trivial h hplay

end Schedules

end Calls
