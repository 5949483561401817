import Mathlib.Data.List.Forall2
import ThalosBackend.Library.Calls

/-!
# What a program that reads can tell apart

A program asks for replies about a state that others change while it runs: each of its calls is
answered on the state of that moment (`Watched`). Two states may differ where the program must not see
it. `Alike` compares what two programs do on both sides of such a difference: each reply on one side
has a counterpart on the other, whatever the two states are at that call. Programs that are alike can
not tell one course of states from another (`Alike.watched`), so nothing about the states themselves
has to be carried from call to call.

`alike_ask` is the rule for a call whose replies may differ, `alike_same` the one for a call that can
not see the difference, and `Alike.bind` puts the parts together.
-/

set_option autoImplicit false

namespace Calls

variable {ε q : Type} {r : q → Type} {α β σ : Type}

/-! ## Tables that agree on the rows in view -/

section Rows

variable {R : α → α → Prop} {p p' : α → Bool} {l l' : List α}

/-- What is filtered from rows in view is the same. -/
theorem filter_eq_of_filter_eq (h : l'.filter p' = l.filter p') (hl : ∀ a ∈ l, p a = true → p' a = true)
    (hl' : ∀ a ∈ l', p a = true → p' a = true) : l'.filter p = l.filter p := by
  have hinner : ∀ rows : List α, (∀ a ∈ rows, p a = true → p' a = true) →
      rows.filter p = (rows.filter p').filter p := by
    intro rows hrows
    rw [List.filter_filter]
    refine List.filter_congr fun a ha => ?_
    cases hp : p a with
    | false => rfl
    | true => simp [hrows a ha hp]
  rw [hinner l hl, hinner l' hl', h]

/-- What is filtered from rows that are the same is the same. -/
theorem filter_eq_of_forall₂ (h : List.Forall₂ R l l')
    (hp : ∀ a ∈ l, ∀ a' ∈ l', R a a' → a' = a ∨ p a = false ∧ p a' = false) :
    l'.filter p = l.filter p := by
  induction h with
  | nil => rfl
  | @cons a a' l l' ha h ih =>
      have ih := ih fun b hb b' hb' =>
        hp b (List.mem_cons_of_mem a hb) b' (List.mem_cons_of_mem a' hb')
      rcases hp a List.mem_cons_self a' List.mem_cons_self ha with rfl | ⟨hout, hout'⟩
      · rw [List.filter_cons, List.filter_cons, ih]
      · rw [List.filter_cons_of_neg (by simp [hout']), List.filter_cons_of_neg (by simp [hout]), ih]

end Rows

/-! ## Reading a course of states -/

section Watched

variable (sees : (c : q) → σ → r c → Prop)

/-- The program has made its calls on these states, one each, and ended so. -/
def Watched : Calls ε q r α → List σ → Except ε α → Prop
  | .done a, states, out => states = [] ∧ out = .ok a
  | .fail e, states, out => states = [] ∧ out = .error e
  | .call c next, states, out =>
      ∃ s rest x, states = s :: rest ∧ sees c s x ∧ Watched (next x) rest out

end Watched

/-! ## Programs that act alike -/

section Alike

variable {sees : (c : q) → σ → r c → Prop} {E : σ → σ → Prop}

/-- The programs make the same calls, on any two related states every reply of the one has a
counterpart for the other, and they fail alike or end with related values. -/
def Alike (sees : (c : q) → σ → r c → Prop) (E : σ → σ → Prop) (Φ : α → α → Prop) :
    Calls ε q r α → Calls ε q r α → Prop
  | .done a, p' => ∃ a', p' = .done a' ∧ Φ a a'
  | .fail e, p' => p' = .fail e
  | .call c next, p' => ∃ next', p' = .call c next' ∧ ∀ s s' x, E s s' → sees c s x →
      ∃ x', sees c s' x' ∧ Alike sees E Φ (next x) (next' x')

variable {Φ : α → α → Prop} {Ψ : β → β → Prop}

theorem alike_done {a a' : α} (h : Φ a a') :
    Alike sees E Φ (.done a : Calls ε q r α) (.done a') :=
  ⟨a', rfl, h⟩

theorem alike_fail (e : ε) : Alike sees E Φ (.fail e : Calls ε q r α) (.fail e) := rfl

/-- The rule for a call whose replies may differ. -/
theorem alike_ask {c : q} {f f' : r c → Calls ε q r α} (K : r c → r c → Prop)
    (hc : ∀ s s' x, E s s' → sees c s x → ∃ x', sees c s' x' ∧ K x x')
    (hf : ∀ x x', K x x' → Alike sees E Φ (f x) (f' x')) :
    Alike sees E Φ (ask c >>= f) (ask c >>= f') := by
  refine ⟨f', rfl, fun s s' x hs hx => ?_⟩
  obtain ⟨x', hx', hK⟩ := hc s s' x hs hx
  exact ⟨x', hx', hf x x' hK⟩

/-- The rule for a call that is answered alike on both sides. -/
theorem alike_same {c : q} {f f' : r c → Calls ε q r α}
    (hc : ∀ s s' x, E s s' → sees c s x → sees c s' x)
    (hf : ∀ s s' x, E s s' → sees c s x → Alike sees E Φ (f x) (f' x)) :
    Alike sees E Φ (ask c >>= f) (ask c >>= f') :=
  ⟨f', rfl, fun s s' x hs hx => ⟨x, hc s s' x hs hx, hf s s' x hs hx⟩⟩

/-- The rule for statements one after the other. -/
theorem Alike.bind {p p' : Calls ε q r α} {f f' : α → Calls ε q r β} (h : Alike sees E Φ p p')
    (hf : ∀ a a', Φ a a' → Alike sees E Ψ (f a) (f' a')) :
    Alike sees E Ψ (p >>= f) (p' >>= f') := by
  induction p generalizing p' with
  | done a =>
      obtain ⟨a', rfl, ha⟩ := h
      exact hf a a' ha
  | fail e =>
      obtain rfl := h
      exact alike_fail e
  | call c next ih =>
      obtain ⟨next', rfl, hnext⟩ := h
      refine ⟨fun x => next' x >>= f', rfl, fun s s' x hs hx => ?_⟩
      obtain ⟨x', hx', halike⟩ := hnext s s' x hs hx
      exact ⟨x', hx', ih x halike⟩

/-- Programs of a part of the calls, among all of them. -/
theorem Alike.embed {q' : Type} {r' : q' → Type} {sees' : (c : q') → σ → r' c → Prop}
    {inj : q → q'} {back : (c : q) → r' (inj c) → r c}
    (hsees : ∀ c s y, sees' (inj c) s y → sees c s (back c y))
    (hback : ∀ c s x, sees c s x → ∃ y, sees' (inj c) s y ∧ back c y = x)
    {p p' : Calls ε q r α} (h : Alike sees E Φ p p') :
    Alike sees' E Φ (p.embed inj back) (p'.embed inj back) := by
  induction p generalizing p' with
  | done a =>
      obtain ⟨a', rfl, ha⟩ := h
      exact ⟨a', rfl, ha⟩
  | fail e =>
      obtain rfl := h
      rfl
  | call c next ih =>
      obtain ⟨next', rfl, hnext⟩ := h
      refine ⟨_, rfl, fun s s' y hs hy => ?_⟩
      obtain ⟨x', hx', halike⟩ := hnext s s' (back c y) hs (hsees c s y hy)
      obtain ⟨y', hy', rfl⟩ := hback c s' x' hx'
      exact ⟨y', hy', ih _ halike⟩

/-! ## They can not tell the states apart -/

/-- **Run lemma.** What a program may end with on one course of states, a program that acts alike may
end with on any course that is related to it state by state. -/
theorem Alike.watched {p p' : Calls ε q r α} (h : Alike sees E Eq p p') {states states' : List σ}
    {out : Except ε α} (hstates : List.Forall₂ E states states')
    (hrun : Watched sees p states out) : Watched sees p' states' out := by
  induction p generalizing p' states states' with
  | done a =>
      obtain ⟨a', rfl, rfl⟩ := h
      obtain ⟨rfl, rfl⟩ := hrun
      cases hstates
      exact ⟨rfl, rfl⟩
  | fail e =>
      obtain rfl := h
      obtain ⟨rfl, rfl⟩ := hrun
      cases hstates
      exact ⟨rfl, rfl⟩
  | call c next ih =>
      obtain ⟨next', rfl, hnext⟩ := h
      obtain ⟨s, rest, x, rfl, hx, hrun⟩ := hrun
      cases hstates with
      | cons hs hrest =>
          obtain ⟨x', hx', halike⟩ := hnext s _ x hs hx
          exact ⟨_, _, x', rfl, hx', ih x halike hrest hrun⟩

end Alike

end Calls
