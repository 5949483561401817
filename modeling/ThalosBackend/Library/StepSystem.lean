import Mathlib.Logic.Relation

/-!
# Labelled step systems

A system has initial states and labelled steps. `Reachable` is what it can get to, `Leads` what it
can get to from a given state. `invariant_of_steps` is the one induction over reachable states and
`rel_of_steps` the one induction over runs between two of them; every property of a run below is an
instance of one of the two.

`restrict` keeps only the steps that meet a guard on the state before the step. A guard says under
which circumstances a property is claimed; what the guarded system reaches, the full one reaches
too.
-/

set_option autoImplicit false

universe u v

/-- Initial states and labelled steps. -/
structure StepSystem (σ : Type u) (α : Type v) where
  init : σ → Prop
  step : σ → α → σ → Prop

namespace StepSystem

variable {σ : Type u} {α : Type v}

/-- The states some run from an initial state ends in. -/
inductive Reachable (M : StepSystem σ α) : σ → Prop where
  | init {s : σ} : M.init s → Reachable M s
  | step {s s' : σ} {l : α} : Reachable M s → M.step s l s' → Reachable M s'

/-- A run of any length, with any labels, leads from one state to the other. -/
def Leads (M : StepSystem σ α) : σ → σ → Prop :=
  Relation.ReflTransGen fun s s' => ∃ l, M.step s l s'

/-- The system whose steps also meet a guard. -/
def restrict (M : StepSystem σ α) (guard : σ → α → Prop) : StepSystem σ α where
  init := M.init
  step s l s' := guard s l ∧ M.step s l s'

variable {M : StepSystem σ α}

/-- What holds initially and is kept by every step from a reachable state holds in every reachable
state. -/
theorem invariant_of_steps {I : σ → Prop} (hinit : ∀ s, M.init s → I s)
    (hstep : ∀ s l s', M.Reachable s → I s → M.step s l s' → I s') {s : σ}
    (h : M.Reachable s) : I s := by
  induction h with
  | init hs => exact hinit _ hs
  | step hr hs ih => exact hstep _ _ _ hr ih hs

/-- Whatever a run leads to from a reachable state is reachable. -/
theorem Reachable.leads {s s' : σ} (h : M.Reachable s) (hl : M.Leads s s') : M.Reachable s' := by
  induction hl with
  | refl => exact h
  | tail _ hs ih => exact ih.step hs.choose_spec

/-- What every step keeps, every run keeps. -/
theorem Leads.keeps {I : σ → Prop} (hstep : ∀ s l s', I s → M.step s l s' → I s') {s s' : σ}
    (hl : M.Leads s s') (h : I s) : I s' := by
  induction hl with
  | refl => exact h
  | tail _ hs ih => exact hstep _ _ _ ih hs.choose_spec

/-- A reflexive and transitive relation that holds across every step from a reachable state holds
across every run from one. -/
theorem rel_of_steps {R : σ → σ → Prop} (hrefl : ∀ s, R s s)
    (htrans : ∀ s₁ s₂ s₃, R s₁ s₂ → R s₂ s₃ → R s₁ s₃)
    (hstep : ∀ s l s', M.Reachable s → M.step s l s' → R s s') {s s' : σ}
    (h : M.Reachable s) (hl : M.Leads s s') : R s s' := by
  induction hl with
  | refl => exact hrefl _
  | tail hs hl ih => exact htrans _ _ _ ih (hstep _ _ _ (h.leads hs) hl.choose_spec)

/-- A step of the full system that meets the guard is one of the guarded system. -/
theorem Reachable.guarded {guard : σ → α → Prop} {s s' : σ} {l : α}
    (h : (M.restrict guard).Reachable s) (hs : M.step s l s') (hg : guard s l) :
    (M.restrict guard).Reachable s' :=
  h.step ⟨hg, hs⟩

/-- A weaker guard leaves everything reachable. -/
theorem Reachable.guard_mono {guard guard' : σ → α → Prop} (h : ∀ s l, guard s l → guard' s l)
    {s : σ} (hs : (M.restrict guard).Reachable s) : (M.restrict guard').Reachable s := by
  induction hs with
  | init hs => exact .init hs
  | step _ hs ih => exact ih.guarded hs.2 (h _ _ hs.1)

/-- The guarded system reaches nothing new. -/
theorem Reachable.of_restrict {guard : σ → α → Prop} {s : σ}
    (h : (M.restrict guard).Reachable s) : M.Reachable s := by
  induction h with
  | init hs => exact .init hs
  | step _ hs ih => exact ih.step hs.2

/-- A guard that every step meets leaves nothing out. -/
theorem Reachable.restrict {guard : σ → α → Prop} (hguard : ∀ s l, guard s l) {s : σ}
    (h : M.Reachable s) : (M.restrict guard).Reachable s := by
  induction h with
  | init hs => exact .init hs
  | step _ hs ih => exact ih.guarded hs (hguard _ _)

end StepSystem
