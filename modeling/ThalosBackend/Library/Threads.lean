import Mathlib.Logic.Function.Basic
import ThalosBackend.Library.StepSystem

/-!
# Threads over a shared store

A `Program` says what one thread can do in one atomic step: it reads and writes the shared store and
moves to its next local state, or ends. Threads start at any time, under any free name, and run in
any order. The environment acts too; its steps change the store and may end threads without asking
them.

`Outline` is the thread-modular proof rule: an invariant of the store, an assertion that a thread
keeps about the store and its local state, and a compatibility between any two live threads. What
one thread must show about another is only that its step leaves the other's assertion true.
-/

set_option autoImplicit false

namespace Threads

open Function

universe u v w x y

/-- The shared store and the live threads. -/
structure Config (σ : Type u) (τ : Type v) (κ : Type w) where
  shared : σ
  threads : τ → Option κ

/-- What a thread can do, how threads begin, and what happens around them. -/
structure Program (σ : Type u) (κ : Type w) (α : Type x) (β : Type y) where
  init : σ → Prop
  entry : κ → Prop
  act : α → σ → κ → σ → Option κ → Prop
  env : β → σ → σ → Prop
  survives : β → κ → Bool

/-- The name of a step: which thread began or acted and how, or what the environment did. -/
inductive Label (τ : Type v) (κ : Type w) (α : Type x) (β : Type y) where
  | start (t : τ) (k : κ)
  | act (t : τ) (a : α)
  | env (b : β)

variable {σ : Type u} {τ : Type v} [DecidableEq τ] {κ : Type w} {α : Type x} {β : Type y}

/-- One step of the threads together. -/
inductive Step (P : Program σ κ α β) : Config σ τ κ → Label τ κ α β → Config σ τ κ → Prop where
  | start {c : Config σ τ κ} {t : τ} {k : κ} : c.threads t = none → P.entry k →
      Step P c (.start t k) ⟨c.shared, update c.threads t (some k)⟩
  | act {c : Config σ τ κ} {t : τ} {a : α} {k : κ} {s : σ} {next : Option κ} :
      c.threads t = some k → P.act a c.shared k s next →
      Step P c (.act t a) ⟨s, update c.threads t next⟩
  | env {c : Config σ τ κ} {b : β} {s : σ} : P.env b c.shared s →
      Step P c (.env b) ⟨s, fun t => (c.threads t).filter (P.survives b)⟩

/-- The step system of a program: no thread is live at the beginning. -/
def Program.system (P : Program σ κ α β) (τ : Type v) [DecidableEq τ] :
    StepSystem (Config σ τ κ) (Label τ κ α β) where
  init c := P.init c.shared ∧ ∀ t, c.threads t = none
  step := Step P

/-- A thread-modular proof, under a guard on the steps. -/
structure Outline (P : Program σ κ α β) (guard : Config σ τ κ → Label τ κ α β → Prop)
    (I : σ → Prop) (A : σ → κ → Prop) (Q : κ → κ → Prop) : Prop where
  /-- Compatibility does not depend on who is named first. -/
  symm : ∀ k k', Q k k' → Q k' k
  /-- The store's invariant holds at the beginning. -/
  init : ∀ s, P.init s → I s
  /-- A new thread's assertion holds, and it is compatible with every live one. -/
  start : ∀ c t k, guard c (.start t k) → P.entry k → I c.shared → A c.shared k ∧
    ∀ t' k', c.threads t' = some k' → Q k k'
  /-- A step of a thread that is compatible with all others keeps the invariant and the thread's own
  assertion. -/
  own : ∀ c t a k s next, guard c (.act t a) → c.threads t = some k → I c.shared →
    A c.shared k → (∀ t' k', t' ≠ t → c.threads t' = some k' → Q k k') →
    P.act a c.shared k s next → I s ∧ ∀ k' ∈ next, A s k'
  /-- A step does not disturb another thread. -/
  other : ∀ c t a k s next t' k', guard c (.act t a) → c.threads t = some k → t' ≠ t →
    c.threads t' = some k' → I c.shared → A c.shared k → A c.shared k' → Q k k' →
    P.act a c.shared k s next → A s k' ∧ ∀ k'' ∈ next, Q k'' k'
  /-- The environment keeps the invariant and disturbs no thread that survives its step. -/
  env : ∀ c b s, guard c (.env b) → P.env b c.shared s → I c.shared →
    I s ∧ ∀ k, P.survives b k = true → A c.shared k → A s k

/-- What an outline proves: the invariant, every thread's assertion, and compatibility of any two. -/
structure Holds (I : σ → Prop) (A : σ → κ → Prop) (Q : κ → κ → Prop) (c : Config σ τ κ) : Prop where
  inv : I c.shared
  assertion : ∀ t k, c.threads t = some k → A c.shared k
  compatible : ∀ t t' k k', t ≠ t' → c.threads t = some k → c.threads t' = some k' → Q k k'

variable {P : Program σ κ α β} {guard : Config σ τ κ → Label τ κ α β → Prop}
  {I : σ → Prop} {A : σ → κ → Prop} {Q : κ → κ → Prop}

/-- Who is live after one thread moved: that thread in its next state, or another as it was. -/
theorem update_eq_some {threads : τ → Option κ} {t t' : τ} {next : Option κ} {k : κ}
    (h : update threads t next t' = some k) : (t' = t ∧ next = some k) ∨
      (t' ≠ t ∧ threads t' = some k) := by
  by_cases ht : t' = t
  · subst ht
    exact .inl ⟨rfl, by simpa using h⟩
  · exact .inr ⟨ht, by simpa [ht] using h⟩

/-- One step under an outline's guard keeps what the outline asserts. -/
theorem Outline.step (O : Outline P guard I A Q) {c c' : Config σ τ κ} {l : Label τ κ α β}
    (hI : Holds I A Q c) (hguard : guard c l) (hstep : Step P c l c') : Holds I A Q c' := by
  cases hstep with
  | @start t k hfree hentry =>
      -- of two calls at most one is the call that starts
      obtain ⟨hA, hQ⟩ := O.start c t k hguard hentry hI.inv
      refine ⟨hI.inv, fun t' k' hk' => ?_, fun t₁ t₂ k₁ k₂ hne h₁ h₂ => ?_⟩
      · rcases update_eq_some hk' with ⟨-, h⟩ | ⟨-, h⟩
        · obtain rfl : k = k' := by simpa using h
          exact hA
        · exact hI.assertion _ _ h
      · rcases update_eq_some h₁ with ⟨ht₁, h₁⟩ | ⟨-, h₁⟩ <;>
          rcases update_eq_some h₂ with ⟨ht₂, h₂⟩ | ⟨-, h₂⟩
        · exact absurd (ht₁.trans ht₂.symm) hne
        · obtain rfl : k = k₁ := by simpa using h₁
          exact hQ _ _ h₂
        · obtain rfl : k = k₂ := by simpa using h₂
          exact O.symm _ _ (hQ _ _ h₁)
        · exact hI.compatible _ _ _ _ hne h₁ h₂
  | @act t a k s next hk hact =>
      obtain ⟨hinv, hown⟩ := O.own c t a k s next hguard hk hI.inv (hI.assertion _ _ hk)
        (fun t' k' hne hk' => hI.compatible _ _ _ _ hne.symm hk hk') hact
      -- the calls that do not move keep their assertions across the step
      have hother : ∀ t' k', t' ≠ t → c.threads t' = some k' →
          A s k' ∧ ∀ k'' ∈ next, Q k'' k' := fun t' k' hne hk' =>
        O.other c t a k s next t' k' hguard hk hne hk' hI.inv (hI.assertion _ _ hk)
          (hI.assertion _ _ hk') (hI.compatible _ _ _ _ hne.symm hk hk') hact
      refine ⟨hinv, fun t' k' hk' => ?_, fun t₁ t₂ k₁ k₂ hne h₁ h₂ => ?_⟩
      · rcases update_eq_some hk' with ⟨-, h⟩ | ⟨hne, h⟩
        · exact hown _ h
        · exact (hother _ _ hne h).1
      · rcases update_eq_some h₁ with ⟨ht₁, h₁⟩ | ⟨hne₁, h₁⟩ <;>
          rcases update_eq_some h₂ with ⟨ht₂, h₂⟩ | ⟨hne₂, h₂⟩
        · exact absurd (ht₁.trans ht₂.symm) hne
        · exact (hother _ _ hne₂ h₂).2 _ h₁
        · exact O.symm _ _ ((hother _ _ hne₁ h₁).2 _ h₂)
        · exact hI.compatible _ _ _ _ hne h₁ h₂
  | @env b s henv =>
      obtain ⟨hinv, hstable⟩ := O.env c b s hguard henv hI.inv
      refine ⟨hinv, fun t k hk => ?_, fun t t' k k' hne hk hk' => ?_⟩
      · obtain ⟨hk, hs⟩ := Option.filter_eq_some_iff.mp hk
        exact hstable k hs (hI.assertion _ _ hk)
      · exact hI.compatible _ _ _ _ hne (Option.filter_eq_some_iff.mp hk).1
          (Option.filter_eq_some_iff.mp hk').1

theorem Outline.holds_init (O : Outline P guard I A Q) {c : Config σ τ κ}
    (h : (P.system τ).init c) : Holds I A Q c where
  inv := O.init _ h.1
  assertion t k hk := by simp [h.2] at hk
  compatible t t' k k' _ hk := by simp [h.2] at hk

/-- **Non-interference.** An outline's assertions hold in every reachable configuration of the
guarded system. -/
theorem Outline.holds (O : Outline P guard I A Q) {c : Config σ τ κ}
    (h : ((P.system τ).restrict guard).Reachable c) : Holds I A Q c :=
  StepSystem.invariant_of_steps (M := (P.system τ).restrict guard)
    (fun _ hinit => O.holds_init hinit) (fun _ _ _ _ hI hs => O.step hI hs.1 hs.2) h

/-- Non-interference together with a property `J` of whole configurations, for what is not a matter
of single threads. The outline may use `J`, and the proof of `J` may use the outline. -/
theorem Outline.holds_and {J : Config σ τ κ → Prop}
    (O : Outline P (fun c l => guard c l ∧ J c) I A Q)
    (hinit : ∀ c, (P.system τ).init c → J c)
    (hstep : ∀ c l c', ((P.system τ).restrict guard).Reachable c → Holds I A Q c → J c →
      guard c l → Step P c l c' → J c')
    {c : Config σ τ κ} (h : ((P.system τ).restrict guard).Reachable c) : Holds I A Q c ∧ J c :=
  StepSystem.invariant_of_steps (M := (P.system τ).restrict guard)
    (I := fun c => Holds I A Q c ∧ J c)
    (fun c hc => ⟨O.holds_init hc, hinit c hc⟩)
    (fun c l c' hr hI hs => ⟨O.step hI.1 ⟨hs.1, hI.2⟩ hs.2, hstep c l c' hr hI.1 hI.2 hs.1 hs.2⟩) h

end Threads
