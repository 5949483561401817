import ThalosBackend.Library.HeldReplies

/-!
# How requests conduct themselves

`Follows` asks nothing of a program that fails. `Conducts` does: each call is permitted by the history
before it, whatever the replies, and the end is as promised with a value and with an error alike. So it
is what a program that claims something on its way has to give it up again.

`EndsAlong` says what a program ends with when it is answered so, which a history records of it.

`Ruled` says of requests that run at the same time that each has kept to its own rules and will.
-/

set_option autoImplicit false

namespace Calls

open Threads (Config Label Step)

variable {ε q : Type} {r : q → Type} {α β γ σ : Type}

/-- Statements one after the other are grouped in any way. -/
theorem bind_assoc (p : Calls ε q r α) (f : α → Calls ε q r β) (g : β → Calls ε q r γ) :
    ((p >>= f) >>= g) = (p >>= fun a => f a >>= g) := by
  induction p with
  | done a => rfl
  | fail e => rfl
  | call c next ih =>
      simp only [call_bind]
      congr 1
      funext x
      exact ih x

/-- The program whose value says how it ended. -/
def attempted : Calls ε q r α → Calls ε q r (Except ε α)
  | .done a => .done (.ok a)
  | .fail e => .done (.error e)
  | .call c next => .call c fun x => attempted (next x)

/-- A second statement is attempted if the first went well. -/
theorem attempted_bind (p : Calls ε q r α) (f : α → Calls ε q r β) :
    attempted (p >>= f) = attempted p >>= fun out =>
      match out with
      | .ok a => attempted (f a)
      | .error e => .done (.error e) := by
  induction p with
  | done a => rfl
  | fail e => rfl
  | call c next ih =>
      simp only [call_bind, attempted]
      congr 1
      funext x
      exact ih x

/-- A traced program that has failed has not asked since. -/
theorem traced_eq_fail {p : Calls ε q r α} {history history' : Answered q r} {e : ε}
    (h : traced p history = .fail (e, history')) : p = .fail e ∧ history' = history := by
  cases p with
  | done a => cases h
  | fail e' =>
      cases h
      exact ⟨rfl, rfl⟩
  | call c next => cases h

/-! ## What a program does to its end -/

section Conducts

variable {ok : q → Answered q r → Prop} {post : Except ε α → Answered q r → Prop}
  {post' : Except ε β → Answered q r → Prop} {history : Answered q r}

/-- Each call is permitted by the history before it, and the end is as promised. -/
structure Conducts (ok : q → Answered q r → Prop) (post : Except ε α → Answered q r → Prop)
    (p : Calls ε q r α) (history : Answered q r) : Prop where
  follows : Follows (fun _ _ => True) ok post (attempted p) history

theorem conducts_done {a : α} :
    Conducts ok post (.done a : Calls ε q r α) history ↔ post (.ok a) history :=
  ⟨fun h => follows_done_iff.mp h.follows, fun h => ⟨follows_done h⟩⟩

theorem conducts_fail {e : ε} :
    Conducts ok post (.fail e : Calls ε q r α) history ↔ post (.error e) history :=
  ⟨fun h => follows_done_iff.mp h.follows, fun h => ⟨follows_done h⟩⟩

theorem conducts_call {c : q} {next : r c → Calls ε q r α} :
    Conducts ok post (.call c next) history ↔
      ok c history ∧ ∀ x, Conducts ok post (next x) (⟨c, x⟩ :: history) := by
  constructor
  · rintro ⟨h⟩
    obtain ⟨hc, hnext⟩ := follows_call.mp h
    exact ⟨hc, fun x => ⟨hnext x trivial⟩⟩
  · rintro ⟨hc, hnext⟩
    exact ⟨follows_call.mpr ⟨hc, fun x _ => (hnext x).follows⟩⟩

/-- The rule for a call whose reply is used. -/
theorem conducts_ask {c : q} {f : r c → Calls ε q r α} (hc : ok c history)
    (hf : ∀ x, Conducts ok post (f x) (⟨c, x⟩ :: history)) :
    Conducts ok post (ask c >>= f) history :=
  conducts_call.mpr ⟨hc, hf⟩

/-- The rule for statements one after the other. -/
theorem Conducts.bind {p : Calls ε q r α} {f : α → Calls ε q r β} (hp : Conducts ok post p history)
    (hf : ∀ a history', post (.ok a) history' → Conducts ok post' (f a) history')
    (hfail : ∀ e history', post (.error e) history' → post' (.error e) history') :
    Conducts ok post' (p >>= f) history := by
  constructor
  rw [attempted_bind]
  apply hp.follows.bind_post
  intro out history' hout
  cases out with
  | ok a => exact (hf a history' hout).follows
  | error e => exact follows_done (hfail e history' hout)

/-- A computation that may throw. -/
theorem conducts_ofExcept {x : Except ε α} {f : α → Calls ε q r β}
    (hf : ∀ a, x = .ok a → Conducts ok post' (f a) history)
    (hfail : ∀ e, x = .error e → post' (.error e) history) :
    Conducts ok post' (ofExcept x >>= f) history := by
  cases x with
  | ok a => exact hf a rfl
  | error e => exact conducts_fail.mpr (hfail e rfl)

/-- A program of permitted calls keeps what each of them keeps. -/
theorem Only.conducts {permitted : q → Prop} {keeps : Answered q r → Prop} {p : Calls ε q r α}
    (hp : Only permitted p) (h : keeps history)
    (hcall : ∀ c history, permitted c → keeps history →
      ok c history ∧ ∀ x, keeps (⟨c, x⟩ :: history)) :
    Conducts ok (fun _ => keeps) p history := by
  induction p generalizing history with
  | done a => exact conducts_done.mpr h
  | fail e => exact conducts_fail.mpr h
  | call c next ih =>
      obtain ⟨hc, hkept⟩ := hcall c history hp.1 h
      exact conducts_call.mpr ⟨hc, fun x => ih x (hp.2 x trivial) (hkept x)⟩

end Conducts

/-! ## Programs of a part of the calls -/

section Embed

variable {q' : Type} {r' : q' → Type} {inj : q → q'}

/-- The history with its calls as calls of a larger set. -/
def lifted (inj : q → q') (history : Answered q fun c => r' (inj c)) : Answered q' r' :=
  history.map fun e => ⟨inj e.1, e.2⟩

/-- A program keeps to the rules of the larger set if it keeps to them with its own calls. -/
theorem Conducts.embed {ok : q' → Answered q' r' → Prop} {post : Except ε α → Answered q' r' → Prop}
    {p : Calls ε q (fun c => r' (inj c)) α} {history : Answered q fun c => r' (inj c)}
    (hp : Conducts (fun c history => ok (inj c) (lifted inj history))
      (fun out history => post out (lifted inj history)) p history) :
    Conducts ok post (p.embed inj fun _ x => x) (lifted inj history) := by
  induction p generalizing history with
  | done a =>
      have hpost : post (.ok a) (lifted inj history) := hp.follows.every
      exact conducts_done.mpr hpost
  | fail e =>
      have hpost : post (.error e) (lifted inj history) := hp.follows.every
      exact conducts_fail.mpr hpost
  | call c next ih =>
      obtain ⟨hc, hnext⟩ := conducts_call.mp hp
      exact conducts_call.mpr ⟨hc, fun x => ih x (hnext x)⟩

end Embed

/-! ## What a program ends with -/

/-- Answered so, the first answer first, the program ends with the value. -/
inductive EndsAlong : Calls ε q r α → List ((c : q) × r c) → α → Prop where
  | done (a : α) : EndsAlong (.done a) [] a
  | call {c : q} {next : r c → Calls ε q r α} {x : r c} {answers : List ((c : q) × r c)} {a : α} :
      EndsAlong (next x) answers a → EndsAlong (.call c next) (⟨c, x⟩ :: answers) a

section EndsAlong

variable {p : Calls ε q r α} {answers answers' : List ((c : q) × r c)} {a a' : α}

/-- A program that is answered alike ends alike. -/
theorem EndsAlong.unique (h : EndsAlong p answers a) (h' : EndsAlong p answers' a')
    {all : List ((c : q) × r c)} (hall : answers <+: all) (hall' : answers' <+: all) : a = a' := by
  induction h generalizing answers' all with
  | done a =>
      cases h'
      rfl
  | @call c next x answers a _ ih =>
      cases h' with
      | @call _ _ x' answers' _ h' =>
          obtain ⟨rest, rfl⟩ := hall
          obtain ⟨hfirst, hrest⟩ := List.cons_prefix_cons.mp hall'
          cases hfirst
          exact ih h' (List.prefix_append _ _) hrest

/-- What every path with allowed replies ends with, the value is. -/
theorem EndsAlong.of_every (h : EndsAlong p answers a) {allowed : (c : q) → r c → Prop}
    {permitted : q → Prop} {post : α → Prop} (hanswers : ∀ e ∈ answers, allowed e.1 e.2)
    (hevery : Every allowed permitted post p) : post a := by
  induction h with
  | done a => exact hevery
  | call _ ih =>
      obtain ⟨hallowed, hrest⟩ := List.forall_mem_cons.mp hanswers
      exact ih hrest (hevery.2 _ hallowed)

/-- A program of permitted calls ends along what it was answered. -/
theorem Only.conducts_endsAlong {permitted : q → Prop} {ok : q → Answered q r → Prop}
    {history : Answered q r} (hp : Only permitted p) (hok : ∀ c history, permitted c → ok c history) :
    Conducts ok (fun out history' => ∀ a, out = .ok a → ∃ answers : Answered q r,
      history' = answers ++ history ∧ EndsAlong p answers.reverse a) p history := by
  induction p generalizing history with
  | done b =>
      apply conducts_done.mpr
      rintro a ⟨⟩
      exact ⟨[], rfl, .done b⟩
  | fail e =>
      apply conducts_fail.mpr
      rintro a ⟨⟩
  | call c next ih =>
      apply conducts_call.mpr
      refine ⟨hok c history hp.1, fun x => ⟨(ih x (hp.2 x trivial)).follows.mono (fun _ _ h => h)
        (fun _ _ _ h => h) ?_ (fun _ _ => trivial)⟩⟩
      intro out history' hout a ha
      obtain ⟨answers, rfl, hends⟩ := hout a ha
      refine ⟨answers ++ [⟨c, x⟩], List.append_cons answers _ history, ?_⟩
      rw [List.reverse_append]
      exact .call hends

end EndsAlong

/-! ## Histories that keep to the rules -/

/-- Each call was permitted by the history before it. -/
def Lawful (ok : q → Answered q r → Prop) : Answered q r → Prop
  | [] => True
  | e :: history => ok e.1 history ∧ Lawful ok history

/-- What a rule says of a call of the history, with what came before the call. -/
theorem Lawful.of_mem {ok : q → Answered q r → Prop} {history : Answered q r}
    (h : Lawful ok history) {e : (c : q) × r c} (he : e ∈ history) :
    ∃ before, e :: before <:+ history ∧ ok e.1 before := by
  induction history with
  | nil => cases he
  | cons e' history ih =>
      rcases List.mem_cons.mp he with rfl | he
      · exact ⟨history, List.suffix_refl _, h.1⟩
      · obtain ⟨before, hsuffix, hok⟩ := ih h.2 he
        exact ⟨before, hsuffix.trans (List.suffix_cons _ _), hok⟩

/-- A call that is permitted only if there was none of its kind before is made once. -/
theorem Lawful.once {ok : q → Answered q r → Prop} {history : Answered q r}
    (h : Lawful ok history) (kind : q → Prop)
    (hfirst : ∀ c history, kind c → ok c history → ∀ e ∈ history, ¬ kind e.1)
    {e e' : (c : q) × r c} (he : e ∈ history) (he' : e' ∈ history) (hkind : kind e.1)
    (hkind' : kind e'.1) : e = e' := by
  induction history with
  | nil => cases he
  | cons latest history ih =>
      rcases List.mem_cons.mp he with heq | hmem
      · subst heq
        rcases List.mem_cons.mp he' with heq | hmem'
        · exact heq.symm
        · exact absurd hkind' (hfirst _ _ hkind h.1 e' hmem')
      · rcases List.mem_cons.mp he' with heq | hmem'
        · subst heq
          exact absurd hkind (hfirst _ _ hkind' h.1 e hmem)
        · exact ih h.2 hmem hmem'

/-! ## Requests at the same time -/

variable {ρ act env τ : Type}
  {S : Serving ρ (ε × Answered q r) (q × Answered q r) (fun c => r c.1) (α × Answered q r) σ act env}
  {ok : ρ → q → Answered q r → Prop} {post : ρ → Except ε α → Answered q r → Prop}
  {c c' : Config σ τ (Task ρ (ε × Answered q r) (q × Answered q r) (fun c => r c.1)
    (α × Answered q r))}
  {l : Label τ (Task ρ (ε × Answered q r) (q × Answered q r) (fun c => r c.1)
    (α × Answered q r)) act env}

/-- Every request has kept to its rules, and what is left of it keeps to them. -/
def Ruled (ok : ρ → q → Answered q r → Prop) (post : ρ → Except ε α → Answered q r → Prop)
    (c : Config σ τ (Task ρ (ε × Answered q r) (q × Answered q r) (fun c => r c.1)
      (α × Answered q r))) : Prop :=
  ∀ t k, c.threads t = some k → ∃ (p : Calls ε q r α) (history : Answered q r),
    k.rest = traced p history ∧ Lawful (ok k.request) history ∧
      Conducts (ok k.request) (post k.request) p history

theorem ruled_of_none (h : ∀ t, c.threads t = none) : Ruled ok post c := by
  intro t k hk
  rw [h t] at hk
  cases hk

/-- The next call of a request is permitted, and what follows it knows of it. -/
theorem Ruled.next (h : Ruled ok post c) {t : τ} {req : ρ} {call : q} {history : Answered q r}
    {cont : r call → Calls (ε × Answered q r) (q × Answered q r) (fun c => r c.1)
      (α × Answered q r)}
    (hk : c.threads t = some ⟨req, .call (call, history) cont⟩) :
    ok req call history ∧ ∀ x, ∃ p, cont x = traced p (⟨call, x⟩ :: history) ∧
      Conducts (ok req) (post req) p (⟨call, x⟩ :: history) := by
  obtain ⟨p, history', hrest, -, hconducts⟩ := h t _ hk
  obtain ⟨rfl, next, rfl, rfl⟩ := traced_eq_call hrest.symm
  obtain ⟨hc, hnext⟩ := conducts_call.mp hconducts
  exact ⟨hc, fun x => ⟨next x, rfl, hnext x⟩⟩

/-- After its call, a request has the history with it. -/
theorem Ruled.historyOf_cont (h : Ruled ok post c) {t : τ} {req : ρ} {call : q × Answered q r}
    {cont : r call.1 → Calls (ε × Answered q r) (q × Answered q r) (fun c => r c.1)
      (α × Answered q r)}
    (hk : c.threads t = some ⟨req, .call call cont⟩) (x : r call.1) :
    historyOf (cont x) = ⟨call.1, x⟩ :: call.2 := by
  obtain ⟨p, hp, -⟩ := (h.next hk).2 x
  rw [hp, historyOf_traced]

/-- The calls of a request, ended or not, were permitted. -/
theorem Ruled.lawful (h : Ruled ok post c) {t : τ}
    {k : Task ρ (ε × Answered q r) (q × Answered q r) (fun c => r c.1) (α × Answered q r)}
    (hk : c.threads t = some k) : Lawful (ok k.request) (historyOf k.rest) := by
  obtain ⟨p, history, hrest, hlawful, -⟩ := h t k hk
  rw [hrest, historyOf_traced]
  exact hlawful

/-- A request that has ended has ended as promised. -/
theorem Ruled.ended (h : Ruled ok post c) {t : τ} {req : ρ} {a : α} {history : Answered q r}
    (hk : c.threads t = some ⟨req, .done (a, history)⟩) : post req (.ok a) history := by
  obtain ⟨p, history', hrest, -, hconducts⟩ := h t _ hk
  obtain ⟨rfl, rfl⟩ := traced_eq_done hrest.symm
  exact conducts_done.mp hconducts

/-- A request that has failed has failed as promised. -/
theorem Ruled.failed (h : Ruled ok post c) {t : τ} {req : ρ} {e : ε} {history : Answered q r}
    (hk : c.threads t = some ⟨req, .fail (e, history)⟩) : post req (.error e) history := by
  obtain ⟨p, history', hrest, -, hconducts⟩ := h t _ hk
  obtain ⟨rfl, rfl⟩ := traced_eq_fail hrest.symm
  exact conducts_fail.mp hconducts

variable [DecidableEq τ]

/-- **Step lemma.** A step keeps to the rules that requests begin with. -/
theorem Ruled.step (h : Ruled ok post c)
    (hprogram : ∀ req, ∃ p : Calls ε q r α, S.program req = traced p [] ∧
      Conducts (ok req) (post req) p [])
    (hstep : Step S.threads c l c') : Ruled ok post c' := by
  intro t' k hk'
  cases step_cases hstep with
  | start t req hfree =>
      rcases Threads.update_eq_some hk' with ⟨-, hself⟩ | ⟨-, hother⟩
      · cases hself
        obtain ⟨p, hp, hconducts⟩ := hprogram req
        exact ⟨p, [], hp, trivial, hconducts⟩
      · exact h t' k hother
  | act t act req call cont x s hk hexec =>
      rcases Threads.update_eq_some hk' with ⟨-, hself⟩ | ⟨-, hother⟩
      · cases hself
        obtain ⟨hok, hnext⟩ := h.next hk
        obtain ⟨p, hp, hconducts⟩ := hnext x
        have hlawful : Lawful (ok req) call.2 := h.lawful hk
        exact ⟨p, _, hp, ⟨hok, hlawful⟩, hconducts⟩
      · exact h t' k hother
  | env b s henv => exact h t' k hk'

end Calls
