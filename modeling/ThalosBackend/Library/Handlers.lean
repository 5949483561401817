import ThalosBackend.Library.Conduct

/-!
# Handlers

A handler is a program whose failures are caught: it always comes to its end, and nobody is told what
went wrong. What can be asked of it is that the history it ends with is accounted for, whether it went
through or gave up on the way, and that each of its calls is permitted by the history before.

`Accounted` says so of handlers that run at the same time.
-/

set_option autoImplicit false

namespace Calls

open Threads (Config Label Step)

variable {ε q : Type} {r : q → Type} {σ : Type}

/-- `try { … } catch { … }`. -/
def caught : Calls ε q r Unit → Calls ε q r Unit
  | .done _ => .done ()
  | .fail _ => .done ()
  | .call c next => .call c fun x => caught (next x)

/-! ## What a handler does -/

section Handles

variable {ok : q → Answered q r → Prop} {account : Answered q r → Prop} {history : Answered q r}

/-- Each call of the handler is permitted, and the history at its end is accounted for. -/
abbrev Handles (ok : q → Answered q r → Prop) (account : Answered q r → Prop)
    (p : Calls ε q r Unit) (history : Answered q r) : Prop :=
  Conducts ok (fun _ => account) p history

/-- A handler ends where its program ends or fails. -/
theorem Conducts.caught {p : Calls ε q r Unit} (h : Handles ok account p history) :
    Handles ok account (caught p) history := by
  induction p generalizing history with
  | done u => exact conducts_done.mpr (conducts_done.mp h)
  | fail e => exact conducts_done.mpr (conducts_fail.mp h)
  | call c next ih =>
      obtain ⟨hc, hnext⟩ := conducts_call.mp h
      exact conducts_call.mpr ⟨hc, fun x => ih x (hnext x)⟩

end Handles

/-! ## Handlers at the same time -/

variable {ρ act env τ : Type}
  {S : Serving ρ (ε × Answered q r) (q × Answered q r) (fun c => r c.1) (Unit × Answered q r) σ
    act env}
  {ok : ρ → q → Answered q r → Prop} {account : ρ → Answered q r → Prop}
  {c c' : Config σ τ (Task ρ (ε × Answered q r) (q × Answered q r) (fun c => r c.1)
    (Unit × Answered q r))}
  {l : Label τ (Task ρ (ε × Answered q r) (q × Answered q r) (fun c => r c.1)
    (Unit × Answered q r)) act env}

/-- What is left of every handler keeps to its rule. -/
abbrev Accounted (ok : ρ → q → Answered q r → Prop) (account : ρ → Answered q r → Prop)
    (c : Config σ τ (Task ρ (ε × Answered q r) (q × Answered q r) (fun c => r c.1)
      (Unit × Answered q r))) : Prop :=
  Ruled ok (fun req _ => account req) c

/-- **Step lemma.** A step keeps to the rules that handlers begin with. -/
theorem Ruled.step_caught [DecidableEq τ] (h : Accounted ok account c)
    (hprogram : ∀ req, ∃ p : Calls ε q r Unit, S.program req = traced (caught p) [] ∧
      Handles (ok req) (account req) p [])
    (hstep : Step S.threads c l c') : Accounted ok account c' := by
  apply Ruled.step h ?_ hstep
  intro req
  obtain ⟨p, hp, hhandles⟩ := hprogram req
  exact ⟨_, hp, hhandles.caught⟩

end Calls
