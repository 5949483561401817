import ThalosBackend.Library.CallHistory
import ThalosBackend.Library.CallThreads

/-!
# What replies still say

A request that looks before it writes relies on replies that have become old. `tells` is what a reply
says of every state there is from then on, and not only of the one it came from. As long as steps keep
it, whatever follows from the replies of a request holds of the state at its next call: `Attests` is
what follows from them, and `Recalling` is the invariant.

The replies of a request are kept after it has ended, so that what it did can still be accounted for.
-/

set_option autoImplicit false

namespace Calls

open Threads (Config Label Step)

variable {ε q : Type} {r : q → Type} {α β σ : Type} {tells : (c : q) → r c → σ → Prop}
  {history history' : Answered q r}

/-! ## What follows from a history -/

/-- Every reply of the history is right about the state. -/
def Held (tells : (c : q) → r c → σ → Prop) (history : Answered q r) (s : σ) : Prop :=
  ∀ e ∈ history, tells e.1 e.2 s

/-- The fact holds of every state that the replies are right about. -/
def Attests (tells : (c : q) → r c → σ → Prop) (history : Answered q r) (fact : σ → Prop) : Prop :=
  ∀ s, Held tells history s → fact s

theorem held_nil (s : σ) : Held tells [] s := List.forall_mem_nil _

theorem held_cons {c : q} {x : r c} {s : σ} :
    Held tells (⟨c, x⟩ :: history) s ↔ tells c x s ∧ Held tells history s :=
  List.forall_mem_cons

/-- More replies say no less. -/
theorem Held.of_suffix {s : σ} (h : Held tells history' s) (hsuffix : history <:+ history') :
    Held tells history s :=
  fun e he => h e (hsuffix.subset he)

section Attests

variable {fact fact' : σ → Prop}

theorem Attests.extend (h : Attests tells history fact) (hsuffix : history <:+ history') :
    Attests tells history' fact :=
  fun s hs => h s (hs.of_suffix hsuffix)

theorem Attests.mono (h : Attests tells history fact) (hfact : ∀ s, fact s → fact' s) :
    Attests tells history fact' :=
  fun s hs => hfact s (h s hs)

/-- The latest reply is right about the state. -/
theorem attests_last {c : q} {x : r c} (h : ∀ s, tells c x s → fact s) :
    Attests tells (⟨c, x⟩ :: history) fact :=
  fun s hs => h s (held_cons.mp hs).1

end Attests

/-! ## Histories that grow -/

section Follows

variable {allowed : (c : q) → r c → Prop} {ok : q → Answered q r → Prop}
  {post : α → Answered q r → Prop} {post' : β → Answered q r → Prop}

/-- What a program was told before it began, it is told at its end. -/
theorem Follows.suffix {p : Calls ε q r α} (hp : Follows allowed ok post p history) :
    Follows allowed ok (fun a history' => post a history' ∧ history <:+ history') p history := by
  have hgrows : ∀ (p : Calls ε q r α) (history' : Answered q r), history <:+ history' →
      Follows allowed ok post p history' →
      Follows allowed ok (fun a history' => post a history' ∧ history <:+ history') p history' := by
    intro p
    induction p with
    | done a =>
        intro history' hsuffix hp
        exact follows_done ⟨follows_done_iff.mp hp, hsuffix⟩
    | fail e =>
        intro history' _ _
        exact follows_fail e
    | call c next ih =>
        intro history' hsuffix hp
        obtain ⟨hc, hnext⟩ := follows_call.mp hp
        apply follows_call.mpr
        constructor
        · exact hc
        · intro x hx
          exact ih x _ (hsuffix.trans (List.suffix_cons _ _)) (hnext x hx)
  exact hgrows p history (List.suffix_refl _) hp

/-- The rule for statements one after the other, when the second relies on what came before the
first. -/
theorem Follows.bind_suffix {p : Calls ε q r α} {f : α → Calls ε q r β}
    (hp : Follows allowed ok post p history)
    (hf : ∀ a history', history <:+ history' → post a history' →
      Follows allowed ok post' (f a) history') :
    Follows allowed ok post' (p >>= f) history :=
  hp.suffix.bind_post fun a history' hpost => hf a history' hpost.2 hpost.1

end Follows

/-! ## Requests in progress -/

variable {ρ act env τ : Type}
  {S : Serving ρ (ε × Answered q r) (q × Answered q r) (fun c => r c.1) (α × Answered q r) σ act env}

/-- What every request has been told, ended or not, is right about the state. What a reply says may
depend on the request. -/
structure Recalling (tells : ρ → (c : q) → r c → σ → Prop)
    (c : Config σ τ (Task ρ (ε × Answered q r) (q × Answered q r) (fun c => r c.1)
      (α × Answered q r))) : Prop where
  traced : ∀ t k, c.threads t = some k → ∃ (p : Calls ε q r α) (history : Answered q r),
    k.rest = Calls.traced p history
  held : ∀ t k, c.threads t = some k → Held (tells k.request) (historyOf k.rest) c.shared

section Recalling

variable {tells : ρ → (c : q) → r c → σ → Prop}
  {c c' : Config σ τ (Task ρ (ε × Answered q r) (q × Answered q r) (fun c => r c.1)
    (α × Answered q r))}
  {l : Label τ (Task ρ (ε × Answered q r) (q × Answered q r) (fun c => r c.1)
    (α × Answered q r)) act env}

theorem recalling_of_none (h : ∀ t, c.threads t = none) : Recalling tells c := by
  constructor
  · intro t k hk
    rw [h t] at hk
    cases hk
  · intro t k hk
    rw [h t] at hk
    cases hk

/-- What follows from the history of a request holds of the state. -/
theorem Recalling.fact (h : Recalling tells c) {t : τ}
    {k : Task ρ (ε × Answered q r) (q × Answered q r) (fun c => r c.1) (α × Answered q r)}
    (hk : c.threads t = some k) {fact : σ → Prop}
    (hfact : Attests (tells k.request) (historyOf k.rest) fact) :
    fact c.shared :=
  hfact c.shared (h.held t k hk)

variable [DecidableEq τ]

/-- **Step lemma.** A step keeps what has been told if a reply is right about the state it leaves and
no step takes back what was said before. -/
theorem Recalling.step (h : Recalling tells c)
    (hprogram : ∀ req, ∃ p : Calls ε q r α, S.program req = Calls.traced p [])
    (hreply : ∀ a req call x s, S.exec a req call c.shared x s → tells req call.1 x s)
    (hkeep : ∀ t k, c.threads t = some k → Held (tells k.request) (historyOf k.rest) c.shared →
      Held (tells k.request) (historyOf k.rest) c'.shared)
    (hstep : Step S.threads c l c') : Recalling tells c' := by
  cases step_cases hstep with
  | start t req hfree =>
      obtain ⟨p, hp⟩ := hprogram req
      constructor
      · intro t' k' hk'
        rcases Threads.update_eq_some hk' with ⟨-, hself⟩ | ⟨-, hother⟩
        · cases hself
          exact ⟨p, [], hp⟩
        · exact h.traced t' k' hother
      · intro t' k' hk'
        rcases Threads.update_eq_some hk' with ⟨-, hself⟩ | ⟨-, hother⟩
        · cases hself
          simp only [hp, historyOf_traced]
          exact held_nil _
        · exact h.held t' k' hother
  | act t a req call cont x s hk hexec =>
      obtain ⟨p, history, hrest⟩ := h.traced t _ hk
      obtain ⟨hhistory, next, rfl, rfl⟩ := traced_eq_call hrest.symm
      constructor
      · intro t' k' hk'
        rcases Threads.update_eq_some hk' with ⟨-, hself⟩ | ⟨-, hother⟩
        · cases hself
          exact ⟨next x, _, rfl⟩
        · exact h.traced t' k' hother
      · intro t' k' hk'
        rcases Threads.update_eq_some hk' with ⟨-, hself⟩ | ⟨-, hother⟩
        · cases hself
          simp only [historyOf_traced]
          -- what was told before still holds after the call, and the new reply holds on the state it
          -- leaves
          have hbefore : Held (tells req) call.2 s := hkeep t _ hk (h.held t _ hk)
          rw [hhistory] at hbefore
          intro e he
          rcases List.mem_cons.mp he with rfl | he
          · exact hreply a req call x s hexec
          · exact hbefore e he
        · exact hkeep t' k' hother (h.held t' k' hother)
  | env b s henv =>
      constructor
      · exact h.traced
      · intro t' k' hk'
        exact hkeep t' k' hk' (h.held t' k' hk')

/-- A step ends no request, and takes nothing from what a request has been told. -/
theorem Recalling.grows (h : Recalling tells c) (hstep : Step S.threads c l c') {t : τ}
    {k : Task ρ (ε × Answered q r) (q × Answered q r) (fun c => r c.1) (α × Answered q r)}
    (hk : c.threads t = some k) : ∃ k', c'.threads t = some k' ∧ k'.request = k.request ∧
      historyOf k.rest <:+ historyOf k'.rest := by
  cases step_cases hstep with
  | start t' req hfree =>
      have hne : t ≠ t' := by
        rintro rfl
        rw [hfree] at hk
        cases hk
      exact ⟨k, (Function.update_of_ne hne _ _).trans hk, rfl, List.suffix_refl _⟩
  | act t' a req call cont x s hk' hexec =>
      by_cases ht : t = t'
      · subst ht
        obtain rfl := Option.some.inj (hk.symm.trans hk')
        obtain ⟨p, history, hrest⟩ := h.traced t _ hk
        obtain ⟨hhistory, next, rfl, rfl⟩ := traced_eq_call hrest.symm
        refine ⟨_, Function.update_self _ _ _, rfl, ?_⟩
        -- the history of the call is one shorter than that of what follows it
        rw [historyOf_traced, historyOf, hhistory]
        exact List.suffix_cons _ _
      · exact ⟨k, (Function.update_of_ne ht _ _).trans hk, rfl, List.suffix_refl _⟩
  | env b s henv => exact ⟨k, hk, rfl, List.suffix_refl _⟩

end Recalling

end Calls
