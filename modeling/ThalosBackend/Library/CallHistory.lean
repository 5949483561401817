import ThalosBackend.Library.Calls

/-!
# Programs that remember

`traced` gives every call of a program the history of the calls before it and of what they were
answered. A request that reads before it writes can then be told by its next call alone: what it has
read is there, while the store may have moved on.

`Follows` is the proof rule. Each call is permitted by the history before it, along every path whose
replies are allowed.
-/

set_option autoImplicit false

namespace Calls

variable {ε q : Type} {r : q → Type} {α β : Type}

/-- Answered calls, the latest first. -/
abbrev Answered (q : Type) (r : q → Type) := List ((c : q) × r c)

/-- The program whose calls carry the history before them, and which ends with it. -/
def traced : Calls ε q r α → Answered q r →
    Calls (ε × Answered q r) (q × Answered q r) (fun c => r c.1) (α × Answered q r)
  | .done a, history => .done (a, history)
  | .fail e, history => .fail (e, history)
  | .call c next, history => .call (c, history) fun x => traced (next x) (⟨c, x⟩ :: history)

/-- The history a traced program is at. -/
def historyOf : Calls (ε × Answered q r) (q × Answered q r) (fun c => r c.1) (α × Answered q r) →
    Answered q r
  | .done out => out.2
  | .fail e => e.2
  | .call c _ => c.2

@[simp] theorem historyOf_traced (p : Calls ε q r α) (history : Answered q r) :
    historyOf (traced p history) = history := by
  cases p <;> rfl

/-- The second statement remembers the first. -/
theorem traced_bind (p : Calls ε q r α) (f : α → Calls ε q r β) (history : Answered q r) :
    traced (p >>= f) history = traced p history >>= fun out => traced (f out.1) out.2 := by
  induction p generalizing history with
  | done a => rfl
  | fail e => rfl
  | call c next ih =>
      simp only [call_bind, traced]
      congr 1
      funext x
      exact ih x _

/-- A call carries the history the program was at, and what is left is at the history with it. -/
theorem traced_eq_call {p : Calls ε q r α} {history history' : Answered q r} {c : q}
    {cont : r c → Calls (ε × Answered q r) (q × Answered q r) (fun c => r c.1) (α × Answered q r)}
    (h : traced p history = .call (c, history') cont) : history' = history ∧
      ∃ next, p = .call c next ∧ cont = fun x => traced (next x) (⟨c, x⟩ :: history) := by
  cases p with
  | done a => cases h
  | fail e => cases h
  | call c' next =>
      cases h
      exact ⟨rfl, next, rfl, rfl⟩

/-- A traced program that has ended with a value has not asked since. -/
theorem traced_eq_done {p : Calls ε q r α} {history history' : Answered q r} {a : α}
    (h : traced p history = .done (a, history')) : p = .done a ∧ history' = history := by
  cases p with
  | done b =>
      cases h
      exact ⟨rfl, rfl⟩
  | fail e => cases h
  | call c next => cases h

/-! ## What every path asks for, after what came before -/

variable {allowed : (c : q) → r c → Prop} {ok : q → Answered q r → Prop}
  {post : α → Answered q r → Prop} {post' : β → Answered q r → Prop}

/-- Along every path with allowed replies, each call is permitted by the history before it, and an end
with a value meets a postcondition. A structure, so that nothing looks into the program before a rule
is applied. -/
structure Follows (allowed : (c : q) → r c → Prop) (ok : q → Answered q r → Prop)
    (post : α → Answered q r → Prop) (p : Calls ε q r α) (history : Answered q r) : Prop where
  every : Every (fun c x => allowed c.1 x) (fun c => ok c.1 c.2) (fun out => post out.1 out.2)
    (traced p history)

variable {history : Answered q r}

theorem follows_done {a : α} (h : post a history) :
    Follows allowed ok post (.done a : Calls ε q r α) history := ⟨h⟩

theorem follows_done_iff {a : α} :
    Follows allowed ok post (.done a : Calls ε q r α) history ↔ post a history :=
  ⟨fun h => h.every, follows_done⟩

theorem follows_fail (e : ε) : Follows allowed ok post (.fail e : Calls ε q r α) history :=
  ⟨trivial⟩

theorem follows_call {c : q} {next : r c → Calls ε q r α} :
    Follows allowed ok post (.call c next) history ↔
      ok c history ∧ ∀ x, allowed c x → Follows allowed ok post (next x) (⟨c, x⟩ :: history) := by
  constructor
  · rintro ⟨hc, hnext⟩
    exact ⟨hc, fun x hx => ⟨hnext x hx⟩⟩
  · rintro ⟨hc, hnext⟩
    exact ⟨hc, fun x hx => (hnext x hx).every⟩

/-- The rule for a call whose reply is used. -/
theorem follows_ask {c : q} {f : r c → Calls ε q r α} (hc : ok c history)
    (hf : ∀ x, allowed c x → Follows allowed ok post (f x) (⟨c, x⟩ :: history)) :
    Follows allowed ok post (ask c >>= f) history :=
  follows_call.mpr ⟨hc, hf⟩

/-- A computation that may throw. -/
theorem follows_ofExcept {x : Except ε α} {f : α → Calls ε q r β}
    (hf : ∀ a, x = .ok a → Follows allowed ok post' (f a) history) :
    Follows allowed ok post' (ofExcept x >>= f) history := by
  cases x with
  | ok a => exact hf a rfl
  | error e => exact follows_fail e

/-- Calls that are permitted whatever came before. -/
theorem Only.follows {permitted : q → Prop} {p : Calls ε q r α} (hp : Only permitted p)
    (hok : ∀ c history, permitted c → ok c history) :
    Follows allowed ok (fun _ _ => True) p history := by
  induction p generalizing history with
  | done a => exact follows_done trivial
  | fail e => exact follows_fail e
  | call c next ih =>
      apply follows_call.mpr
      constructor
      · exact hok c history hp.1
      · intro x _
        exact ih x (hp.2 x trivial)

/-- The rule of consequence. The replies in the history were allowed, so they may be used. -/
theorem Follows.mono {allowed' : (c : q) → r c → Prop} {ok' : q → Answered q r → Prop}
    {post₂ : α → Answered q r → Prop} {p : Calls ε q r α} (hp : Follows allowed ok post p history)
    (hallowed : ∀ c x, allowed' c x → allowed c x)
    (hok : ∀ c history, (∀ e ∈ history, allowed' e.1 e.2) → ok c history → ok' c history)
    (hpost : ∀ a history, post a history → post₂ a history)
    (hhistory : ∀ e ∈ history, allowed' e.1 e.2) : Follows allowed' ok' post₂ p history := by
  induction p generalizing history with
  | done a => exact follows_done (hpost a history hp.every)
  | fail e => exact follows_fail e
  | call c next ih =>
      obtain ⟨hc, hnext⟩ := follows_call.mp hp
      apply follows_call.mpr
      constructor
      · exact hok c history hhistory hc
      · intro x hx
        apply ih x (hnext x (hallowed c x hx))
        exact List.forall_mem_cons.mpr ⟨hx, hhistory⟩

/-- Nothing is asked of the calls. -/
theorem follows_of_forall (hok : ∀ c history, ok c history) (p : Calls ε q r α) :
    Follows allowed ok (fun _ _ => True) p history := by
  induction p generalizing history with
  | done a => exact follows_done trivial
  | fail e => exact follows_fail e
  | call c next ih => exact follows_call.mpr ⟨hok c history, fun x _ => ih x⟩

/-- The rule for statements one after the other. -/
theorem Follows.bind_post {p : Calls ε q r α} {f : α → Calls ε q r β}
    (hp : Follows allowed ok post p history)
    (hf : ∀ a history, post a history → Follows allowed ok post' (f a) history) :
    Follows allowed ok post' (p >>= f) history := by
  constructor
  rw [traced_bind, every_bind]
  apply hp.every.mono (fun _ _ h => h) (fun _ h => h)
  intro out hout
  exact (hf out.1 out.2 hout).every

/-- Of the history that the second statement starts from, nothing need be known. -/
theorem Follows.bind {p : Calls ε q r α} {f : α → Calls ε q r β}
    (hp : Follows allowed ok post p history)
    (hf : ∀ a history, Follows allowed ok post' (f a) history) :
    Follows allowed ok post' (p >>= f) history :=
  hp.bind_post fun a history _ => hf a history

end Calls
