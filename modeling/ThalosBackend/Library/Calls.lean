import Mathlib.Logic.Basic

/-!
# Programs of atomic calls

A `Calls` program asks for one call at a time and goes on with the reply; it ends with a value or
with an error. What a call does to a shared state is left to a relation, so one program has a
sequential meaning (`Runs`), in which its calls follow one another, and can be a thread that others
interleave with, one call a step.

`Every` is the proof rule that both meanings share: along every path whose replies are possible, each
call is a permitted one, and an end with a value meets a postcondition. `Issues` is its dual, what
some path asks for. All three are computed through `bind`, so a program is reasoned about one
statement at a time.
-/

set_option autoImplicit false

/-- A program over calls `q`, which are answered with replies of type `r`. -/
inductive Calls (ε q : Type) (r : q → Type) (α : Type) where
  | done (a : α)
  | fail (e : ε)
  | call (c : q) (next : r c → Calls ε q r α)

namespace Calls

variable {ε q : Type} {r : q → Type} {α β σ : Type}

/-- Go on after the value. -/
protected def bind : Calls ε q r α → (α → Calls ε q r β) → Calls ε q r β
  | .done a, f => f a
  | .fail e, _ => .fail e
  | .call c next, f => .call c fun x => (next x).bind f

instance : Monad (Calls ε q r) where
  pure := .done
  bind := Calls.bind

/-- One call, whose reply is the value. -/
def ask (c : q) : Calls ε q r (r c) := .call c .done

/-- A computation without calls. -/
def ofExcept : Except ε α → Calls ε q r α
  | .ok a => .done a
  | .error e => .fail e

@[simp] theorem pure_eq (a : α) : (pure a : Calls ε q r α) = .done a := rfl

@[simp] theorem done_bind (a : α) (f : α → Calls ε q r β) : (Calls.done a >>= f) = f a := rfl

@[simp] theorem fail_bind (e : ε) (f : α → Calls ε q r β) :
    (Calls.fail e >>= f) = Calls.fail e := rfl

@[simp] theorem call_bind (c : q) (next : r c → Calls ε q r α) (f : α → Calls ε q r β) :
    (Calls.call c next >>= f) = Calls.call c fun x => next x >>= f := rfl

@[simp] theorem ask_bind (c : q) (f : r c → Calls ε q r β) : (ask c >>= f) = Calls.call c f := rfl

/-! ## What every path asks for -/

section Every

variable {allowed : (c : q) → r c → Prop} {ok : q → Prop}

/-- Along every path with allowed replies, each call is permitted and the value at the end meets the
postcondition. -/
def Every (allowed : (c : q) → r c → Prop) (ok : q → Prop) (post : α → Prop) :
    Calls ε q r α → Prop
  | .done a => post a
  | .fail _ => True
  | .call c next => ok c ∧ ∀ x, allowed c x → Every allowed ok post (next x)

variable {post : α → Prop} {post' : β → Prop}

@[simp] theorem every_done (a : α) :
    Every allowed ok post (.done a : Calls ε q r α) ↔ post a := Iff.rfl

@[simp] theorem every_fail (e : ε) : Every allowed ok post (.fail e : Calls ε q r α) := trivial

@[simp] theorem every_call (c : q) (next : r c → Calls ε q r α) :
    Every allowed ok post (.call c next) ↔
      ok c ∧ ∀ x, allowed c x → Every allowed ok post (next x) := Iff.rfl

/-- The rule for statements one after the other. -/
theorem every_bind {p : Calls ε q r α} {f : α → Calls ε q r β} :
    Every allowed ok post' (p >>= f) ↔
      Every allowed ok (fun a => Every allowed ok post' (f a)) p := by
  induction p with
  | done a => exact Iff.rfl
  | fail e => exact Iff.rfl
  | call c next ih =>
      simp only [call_bind, every_call]
      constructor
      · rintro ⟨hok, hnext⟩
        exact ⟨hok, fun x hx => (ih x).mp (hnext x hx)⟩
      · rintro ⟨hok, hnext⟩
        exact ⟨hok, fun x hx => (ih x).mpr (hnext x hx)⟩

/-- The rule for a call whose reply is used. -/
theorem every_ask {c : q} {f : r c → Calls ε q r α} (hc : ok c)
    (hf : ∀ x, allowed c x → Every allowed ok post (f x)) : Every allowed ok post (ask c >>= f) :=
  ⟨hc, hf⟩

/-- The rule of consequence. -/
theorem Every.mono {allowed' : (c : q) → r c → Prop} {ok' : q → Prop} {post₂ : α → Prop}
    {p : Calls ε q r α} (h : Every allowed ok post p)
    (hallowed : ∀ c x, allowed' c x → allowed c x) (hok : ∀ c, ok c → ok' c)
    (hpost : ∀ a, post a → post₂ a) : Every allowed' ok' post₂ p := by
  induction p with
  | done a => exact hpost a h
  | fail e => trivial
  | call c next ih =>
      refine ⟨hok c h.1, fun x hx => ?_⟩
      exact ih x (h.2 x (hallowed c x hx))

theorem every_ofExcept {x : Except ε α} :
    Every allowed ok post (ofExcept x : Calls ε q r α) ↔ ∀ a, x = .ok a → post a := by
  cases x with
  | ok a => simp [ofExcept]
  | error e => simp [ofExcept]

end Every

/-! ## Programs of permitted calls -/

section Only

variable {ok : q → Prop}

/-- Along every path, each call is a permitted one. -/
abbrev Only (ok : q → Prop) (p : Calls ε q r α) : Prop :=
  Every (fun _ _ => True) ok (fun _ => True) p

theorem only_done (a : α) : Only ok (.done a : Calls ε q r α) := trivial

theorem only_fail (e : ε) : Only ok (.fail e : Calls ε q r α) := trivial

theorem only_ask {c : q} {f : r c → Calls ε q r α} (hc : ok c) (hf : ∀ x, Only ok (f x)) :
    Only ok (ask c >>= f) :=
  ⟨hc, fun x _ => hf x⟩

theorem only_ofExcept (x : Except ε α) : Only ok (ofExcept x : Calls ε q r α) :=
  every_ofExcept.mpr fun _ _ => trivial

theorem only_of_forall (hok : ∀ c, ok c) (p : Calls ε q r α) : Only ok p := by
  induction p with
  | done a => trivial
  | fail e => trivial
  | call c next ih => exact ⟨hok c, fun x _ => ih x⟩

theorem Only.bind {p : Calls ε q r α} {f : α → Calls ε q r β} (h : Only ok p)
    (hf : ∀ a, Only ok (f a)) : Only ok (p >>= f) :=
  every_bind.mpr (Every.mono h (fun _ _ h => h) (fun _ h => h) fun a _ => hf a)

/-- What comes after permitted calls. -/
theorem Only.every_bind {allowed : (c : q) → r c → Prop} {post : β → Prop} {p : Calls ε q r α}
    {f : α → Calls ε q r β} (h : Only ok p) (hf : ∀ a, Every allowed ok post (f a)) :
    Every allowed ok post (p >>= f) :=
  Calls.every_bind.mpr (Every.mono h (fun _ _ _ => trivial) (fun _ h => h) fun a _ => hf a)

theorem Only.mono {ok' : q → Prop} {p : Calls ε q r α} (h : Only ok p)
    (hok : ∀ c, ok c → ok' c) : Only ok' p :=
  Every.mono h (fun _ _ h => h) hok fun _ h => h

end Only

/-! ## What some path asks for -/

/-- Some path, whatever the replies, ends with the value. -/
def Ends : Calls ε q r α → α → Prop
  | .done b, a => b = a
  | .fail _, _ => False
  | .call _ next, a => ∃ x, Ends (next x) a

/-- Some path, whatever the replies, asks for the call. -/
def Issues : Calls ε q r α → q → Prop
  | .done _, _ => False
  | .fail _, _ => False
  | .call c next, c' => c = c' ∨ ∃ x, Issues (next x) c'

@[simp] theorem ends_done (a b : α) : Ends (.done b : Calls ε q r α) a ↔ b = a := Iff.rfl

@[simp] theorem not_ends_fail (e : ε) (a : α) : ¬ Ends (.fail e : Calls ε q r α) a := not_false

@[simp] theorem ends_call (c : q) (next : r c → Calls ε q r α) (a : α) :
    Ends (.call c next) a ↔ ∃ x, Ends (next x) a := Iff.rfl

@[simp] theorem not_issues_done (a : α) (c : q) : ¬ Issues (.done a : Calls ε q r α) c := not_false

@[simp] theorem not_issues_fail (e : ε) (c : q) : ¬ Issues (.fail e : Calls ε q r α) c := not_false

@[simp] theorem issues_call (c c' : q) (next : r c → Calls ε q r α) :
    Issues (.call c next) c' ↔ c = c' ∨ ∃ x, Issues (next x) c' := Iff.rfl

theorem issues_bind {p : Calls ε q r α} {f : α → Calls ε q r β} {c : q} :
    Issues (p >>= f) c ↔ Issues p c ∨ ∃ a, Ends p a ∧ Issues (f a) c := by
  induction p with
  | done a => simp
  | fail e => simp
  | call c' next ih =>
      simp only [call_bind, issues_call, ends_call, ih]
      constructor
      · rintro (h | ⟨x, h | ⟨a, ha, h⟩⟩)
        · exact .inl (.inl h)
        · exact .inl (.inr ⟨x, h⟩)
        · exact .inr ⟨a, ⟨x, ha⟩, h⟩
      · rintro ((h | ⟨x, h⟩) | ⟨a, ⟨x, ha⟩, h⟩)
        · exact .inl h
        · exact .inr ⟨x, .inl h⟩
        · exact .inr ⟨x, .inr ⟨a, ha, h⟩⟩

@[simp] theorem ends_ofExcept {x : Except ε α} {a : α} :
    Ends (ofExcept x : Calls ε q r α) a ↔ x = .ok a := by
  cases x with
  | ok b => simp [ofExcept]
  | error e => simp [ofExcept]

@[simp] theorem not_issues_ofExcept {x : Except ε α} {c : q} :
    ¬ Issues (ofExcept x : Calls ε q r α) c := by
  cases x with
  | ok b => simp [ofExcept]
  | error e => simp [ofExcept]

/-! ## Calls one after the other -/

/-- A run of the program alone: what it ends with, and in which state. -/
def Runs (exec : (c : q) → σ → r c → σ → Prop) :
    Calls ε q r α → σ → Except ε α → σ → Prop
  | .done a, s, out, s' => out = .ok a ∧ s' = s
  | .fail e, s, out, s' => out = .error e ∧ s' = s
  | .call c next, s, out, s' => ∃ x s₁, exec c s x s₁ ∧ Runs exec (next x) s₁ out s'

section Runs

variable {exec : (c : q) → σ → r c → σ → Prop}

@[simp] theorem runs_done {a : α} {s s' : σ} {out : Except ε α} :
    Runs exec (.done a : Calls ε q r α) s out s' ↔ out = .ok a ∧ s' = s := Iff.rfl

@[simp] theorem runs_fail {e : ε} {s s' : σ} {out : Except ε α} :
    Runs exec (.fail e : Calls ε q r α) s out s' ↔ out = .error e ∧ s' = s := Iff.rfl

@[simp] theorem runs_call {c : q} {next : r c → Calls ε q r α} {s s' : σ} {out : Except ε α} :
    Runs exec (.call c next) s out s' ↔ ∃ x s₁, exec c s x s₁ ∧ Runs exec (next x) s₁ out s' :=
  Iff.rfl

/-- What permitted calls with allowed replies keep, a run keeps; and it ends as promised. -/
theorem Every.runs {I : σ → Prop} {allowed : (c : q) → r c → Prop} {ok : q → Prop}
    {post : α → Prop}
    (hexec : ∀ c s x s', ok c → I s → exec c s x s' → I s' ∧ allowed c x)
    {p : Calls ε q r α} (h : Every allowed ok post p) {s s' : σ} {out : Except ε α}
    (hI : I s) (hrun : Runs exec p s out s') : I s' ∧ ∀ a, out = .ok a → post a := by
  induction p generalizing s with
  | done a =>
      obtain ⟨rfl, rfl⟩ := hrun
      refine ⟨hI, fun b hb => ?_⟩
      cases hb
      exact h
  | fail e =>
      obtain ⟨rfl, rfl⟩ := hrun
      exact ⟨hI, fun b hb => by cases hb⟩
  | call c next ih =>
      obtain ⟨x, s₁, hx, hrun⟩ := hrun
      obtain ⟨hI₁, hallowed⟩ := hexec c s x s₁ h.1 hI hx
      exact ih x (h.2 x hallowed) hI₁ hrun

/-- A program whose value is handed on in another form runs as it does without. -/
theorem Runs.bind_done {β : Type} {p : Calls ε q r α} {s s' : σ} {out : Except ε α}
    (h : Runs exec p s out s') (f : α → β) :
    Runs exec (p >>= fun a => .done (f a)) s (out.map f) s' := by
  induction p generalizing s with
  | done a =>
      obtain ⟨rfl, rfl⟩ := h
      exact ⟨rfl, rfl⟩
  | fail e =>
      obtain ⟨rfl, rfl⟩ := h
      exact ⟨rfl, rfl⟩
  | call c next ih =>
      obtain ⟨x, s₁, hx, hrest⟩ := h
      exact ⟨x, s₁, hx, ih x hrest⟩

/-- The run in which every call is answered by a function of the state. -/
def run (answer : (c : q) → σ → r c × σ) : Calls ε q r α → σ → Except ε α × σ
  | .done a, s => (.ok a, s)
  | .fail e, s => (.error e, s)
  | .call c next, s => run answer (next (answer c s).1) (answer c s).2

theorem runs_run {answer : (c : q) → σ → r c × σ}
    (h : ∀ c s, exec c s (answer c s).1 (answer c s).2) (p : Calls ε q r α) (s : σ) :
    Runs exec p s (run answer p s).1 (run answer p s).2 := by
  induction p generalizing s with
  | done a => exact ⟨rfl, rfl⟩
  | fail e => exact ⟨rfl, rfl⟩
  | call c next ih => exact ⟨_, _, h c s, ih _ _⟩

end Runs

/-! ## What every run ends with -/

/-- Every run of the program from the state ends as `Q` says. -/
def Ensures (exec : (c : q) → σ → r c → σ → Prop) :
    Calls ε q r α → σ → (Except ε α → σ → Prop) → Prop
  | .done a, s, Q => Q (.ok a) s
  | .fail e, s, Q => Q (.error e) s
  | .call c next, s, Q => ∀ x s₁, exec c s x s₁ → Ensures exec (next x) s₁ Q

section Ensures

variable {exec : (c : q) → σ → r c → σ → Prop} {s : σ}

@[simp] theorem ensures_done {a : α} {Q : Except ε α → σ → Prop} :
    Ensures exec (.done a : Calls ε q r α) s Q ↔ Q (.ok a) s := Iff.rfl

@[simp] theorem ensures_fail {e : ε} {Q : Except ε α → σ → Prop} :
    Ensures exec (.fail e : Calls ε q r α) s Q ↔ Q (.error e) s := Iff.rfl

@[simp] theorem ensures_call {c : q} {next : r c → Calls ε q r α} {Q : Except ε α → σ → Prop} :
    Ensures exec (.call c next) s Q ↔ ∀ x s₁, exec c s x s₁ → Ensures exec (next x) s₁ Q := Iff.rfl

/-- The rule for a call whose reply is used. -/
theorem ensures_ask {c : q} {f : r c → Calls ε q r α} {Q : Except ε α → σ → Prop}
    (h : ∀ x s₁, exec c s x s₁ → Ensures exec (f x) s₁ Q) : Ensures exec (ask c >>= f) s Q := h

theorem ensures_iff {p : Calls ε q r α} {Q : Except ε α → σ → Prop} :
    Ensures exec p s Q ↔ ∀ out s', Runs exec p s out s' → Q out s' := by
  induction p generalizing s with
  | done a => simp
  | fail e => simp
  | call c next ih =>
      simp only [ensures_call, runs_call, ih]
      constructor
      · rintro h out s' ⟨x, s₁, hx, hrun⟩
        exact h x s₁ hx out s' hrun
      · intro h x s₁ hx out s' hrun
        exact h out s' ⟨x, s₁, hx, hrun⟩

/-- The rule of consequence. -/
theorem Ensures.mono {p : Calls ε q r α} {Q Q' : Except ε α → σ → Prop} (h : Ensures exec p s Q)
    (hQ : ∀ out s', Q out s' → Q' out s') : Ensures exec p s Q' := by
  rw [ensures_iff] at h ⊢
  intro out s' hrun
  exact hQ out s' (h out s' hrun)

/-- Fewer replies are possible. -/
theorem Ensures.of_exec {exec' : (c : q) → σ → r c → σ → Prop} {p : Calls ε q r α}
    {Q : Except ε α → σ → Prop} (h : Ensures exec p s Q)
    (hexec : ∀ c s x s', exec' c s x s' → exec c s x s') : Ensures exec' p s Q := by
  induction p generalizing s with
  | done a => exact h
  | fail e => exact h
  | call c next ih =>
      intro x s₁ hx
      exact ih x (h x s₁ (hexec c s x s₁ hx))

/-- What every run over an image of the state ends with, every run over the state ends with. -/
theorem Ensures.comap {τ : Type} {exec' : (c : q) → τ → r c → τ → Prop} (image : τ → σ)
    {p : Calls ε q r α} {Q : Except ε α → σ → Prop} {t : τ} (h : Ensures exec p (image t) Q)
    (hexec : ∀ c t x t', exec' c t x t' → exec c (image t) x (image t')) :
    Ensures exec' p t fun out t' => Q out (image t') := by
  induction p generalizing t with
  | done a => exact h
  | fail e => exact h
  | call c next ih =>
      intro x t₁ hx
      exact ih x (h x (image t₁) (hexec c t x t₁ hx))

/-- Two postconditions at once. -/
theorem Ensures.and {p : Calls ε q r α} {Q Q' : Except ε α → σ → Prop} (h : Ensures exec p s Q)
    (h' : Ensures exec p s Q') : Ensures exec p s fun out s' => Q out s' ∧ Q' out s' := by
  rw [ensures_iff] at h h' ⊢
  intro out s' hrun
  exact ⟨h out s' hrun, h' out s' hrun⟩

/-- A postcondition that holds of every end. -/
theorem ensures_of_forall {p : Calls ε q r α} {Q : Except ε α → σ → Prop}
    (hQ : ∀ out s', Q out s') : Ensures exec p s Q :=
  ensures_iff.mpr fun out s' _ => hQ out s'

/-- The rule for statements one after the other. -/
theorem ensures_bind {p : Calls ε q r α} {f : α → Calls ε q r β} {Q : Except ε β → σ → Prop} :
    Ensures exec (p >>= f) s Q ↔ Ensures exec p s fun out s₁ =>
      (∀ a, out = .ok a → Ensures exec (f a) s₁ Q) ∧ ∀ e, out = .error e → Q (.error e) s₁ := by
  induction p generalizing s with
  | done a => simp
  | fail e => simp
  | call c next ih =>
      simp only [call_bind, ensures_call, ih]

theorem ensures_ofExcept {x : Except ε α} {Q : Except ε α → σ → Prop} :
    Ensures exec (ofExcept x : Calls ε q r α) s Q ↔ Q x s := by
  cases x with
  | ok a => rfl
  | error e => rfl

/-- The rule for a program of permitted calls, which keep an invariant. -/
theorem Every.ensures {I : σ → Prop} {allowed : (c : q) → r c → Prop} {ok : q → Prop}
    {post : α → Prop} {Q : Except ε α → σ → Prop} {p : Calls ε q r α} (h : Every allowed ok post p)
    (hexec : ∀ c s x s', ok c → I s → exec c s x s' → I s' ∧ allowed c x) (hI : I s)
    (hQ : ∀ out s', I s' → (∀ a, out = .ok a → post a) → Q out s') : Ensures exec p s Q := by
  rw [ensures_iff]
  intro out s' hrun
  obtain ⟨hI', hpost⟩ := h.runs hexec hI hrun
  exact hQ out s' hI' hpost

/-- The rule for a program of permitted calls that keep an invariant, whatever the replies. -/
theorem Only.ensures {I : σ → Prop} {ok : q → Prop} {Q : Except ε α → σ → Prop}
    {p : Calls ε q r α} (h : Only ok p)
    (hexec : ∀ c s x s', ok c → I s → exec c s x s' → I s') (hI : I s)
    (hQ : ∀ out s', I s' → Q out s') : Ensures exec p s Q :=
  Every.ensures h (fun c s x s' hc hs hx => ⟨hexec c s x s' hc hs hx, trivial⟩) hI
    fun out s' hs _ => hQ out s' hs

/-- Every run of the program from the state leads to such a state. A structure, so that nothing looks
into the program before a rule is applied. -/
structure LeadsTo (exec : (c : q) → σ → r c → σ → Prop) (P : σ → Prop) (p : Calls ε q r α) (s : σ) :
    Prop where
  ensures : Ensures exec p s fun _ s' => P s'

theorem LeadsTo.of_runs {P : σ → Prop} {p : Calls ε q r α} (h : LeadsTo exec P p s)
    {out : Except ε α} {s' : σ} (hrun : Runs exec p s out s') : P s' :=
  ensures_iff.mp h.ensures out s' hrun

/-- The rule of consequence. -/
theorem LeadsTo.mono {P P' : σ → Prop} {p : Calls ε q r α} (h : LeadsTo exec P p s)
    (hP : ∀ s', P s' → P' s') : LeadsTo exec P' p s :=
  ⟨h.ensures.mono fun _ _ => hP _⟩

/-- A program whose value is only wrapped. -/
theorem LeadsTo.wrapped {P : σ → Prop} {p : Calls ε q r α} (h : LeadsTo exec P p s) (g : α → β) :
    LeadsTo exec P (p >>= fun a => .done (g a)) s :=
  ⟨ensures_bind.mpr (h.ensures.mono fun _ _ hP => ⟨fun _ _ => hP, fun _ _ => hP⟩)⟩

end Ensures

/-! ## Programs of a part of the calls -/

/-- The program with its calls as calls of a larger set. -/
def embed {q' : Type} {r' : q' → Type} (inj : q → q') (back : (c : q) → r' (inj c) → r c) :
    Calls ε q r α → Calls ε q' r' α
  | .done a => .done a
  | .fail e => .fail e
  | .call c next => .call (inj c) fun x => embed inj back (next (back c x))

section Embed

variable {τ : Type} {q' : Type} {r' : q' → Type} {inj : q → q'} {back : (c : q) → r' (inj c) → r c}

/-- A program of permitted calls, as one of a larger set. -/
theorem Only.embed {ok : q → Prop} {ok' : q' → Prop} {p : Calls ε q r α} (hp : Only ok p)
    (h : ∀ c, ok c → ok' (inj c)) : Only ok' (p.embed inj back) := by
  induction p with
  | done a => trivial
  | fail e => trivial
  | call c next ih => exact ⟨h c hp.1, fun x _ => ih (back c x) (hp.2 (back c x) trivial)⟩

theorem only_embed {ok : q' → Prop} (h : ∀ c, ok (inj c)) (p : Calls ε q r α) :
    Only ok (p.embed inj back) :=
  (only_of_forall (fun _ => trivial) p : Only (fun _ => True) p).embed fun c _ => h c

/-- What every run over a part of the state ends with, every run over the whole ends with. -/
theorem Ensures.embed {exec : (c : q) → σ → r c → σ → Prop} {exec' : (c : q') → τ → r' c → τ → Prop}
    (part : τ → σ) {p : Calls ε q r α} {Q : Except ε α → σ → Prop} {t : τ}
    (h : Ensures exec p (part t) Q)
    (hexec : ∀ c t x t', exec' (inj c) t x t' → exec c (part t) (back c x) (part t')) :
    Ensures exec' (p.embed inj back) t fun out t' => Q out (part t') := by
  induction p generalizing t with
  | done a => exact h
  | fail e => exact h
  | call c next ih =>
      intro x t₁ hx
      exact ih (back c x) (h (back c x) (part t₁) (hexec c t x t₁ hx))

end Embed

end Calls
