import Mathlib.Data.List.Basic

/-!
# Statements up to the first that throws

An `Aborting` computation is what it has done and the error that ended it, if one did. One statement
after the other (`andThen`), and a loop over a list (`each`), go on until something throws: what comes
after it is not attempted.
-/

set_option autoImplicit false

universe u v w

/-- What was done, in order, and what was thrown. -/
structure Aborting (ε : Type u) (ω : Type v) where
  done : List ω
  thrown : Option ε

namespace Aborting

variable {ε : Type u} {ω : Type v} {α : Type w}

/-- Nothing is done. -/
def skip : Aborting ε ω := ⟨[], none⟩

/-- One thing is done. -/
def did (o : ω) : Aborting ε ω := ⟨[o], none⟩

/-- An error is thrown. -/
def throw (e : ε) : Aborting ε ω := ⟨[], some e⟩

/-- One after the other. -/
def andThen (r r' : Aborting ε ω) : Aborting ε ω :=
  match r.thrown with
  | none => ⟨r.done ++ r'.done, r'.thrown⟩
  | some e => ⟨r.done, some e⟩

/-- A loop over a list. -/
def each (f : α → Aborting ε ω) : List α → Aborting ε ω
  | [] => skip
  | a :: as => (f a).andThen (each f as)

@[simp] theorem skip_andThen (r : Aborting ε ω) : skip.andThen r = r := rfl

@[simp] theorem throw_andThen (e : ε) (r : Aborting ε ω) : (throw e).andThen r = throw e := rfl

@[simp] theorem each_nil (f : α → Aborting ε ω) : each f [] = skip := rfl

@[simp] theorem each_cons (f : α → Aborting ε ω) (a : α) (as : List α) :
    each f (a :: as) = (f a).andThen (each f as) := rfl

@[simp] theorem done_did_andThen (o : ω) (r : Aborting ε ω) :
    ((did o).andThen r).done = o :: r.done := rfl

theorem andThen_of_returns {r : Aborting ε ω} (h : r.thrown = none) (r' : Aborting ε ω) :
    r.andThen r' = ⟨r.done ++ r'.done, r'.thrown⟩ := by
  rw [andThen, h]

theorem andThen_of_throws {r : Aborting ε ω} {e : ε} (h : r.thrown = some e) (r' : Aborting ε ω) :
    r.andThen r' = r := by
  obtain ⟨done, thrown⟩ := r
  obtain rfl : thrown = some e := h
  rfl

theorem andThen_assoc (r r' r'' : Aborting ε ω) :
    (r.andThen r').andThen r'' = r.andThen (r'.andThen r'') := by
  obtain ⟨done, _ | e⟩ := r
  · obtain ⟨done', _ | e'⟩ := r'
    · simp [andThen, List.append_assoc]
    · simp [andThen]
  · rfl

/-- Both return. -/
theorem thrown_andThen {r r' : Aborting ε ω} :
    (r.andThen r').thrown = none ↔ r.thrown = none ∧ r'.thrown = none := by
  cases h : r.thrown with
  | none => simp [andThen_of_returns h]
  | some e => simp [andThen_of_throws h, h]

/-- A loop returns when every round does. -/
theorem thrown_each {f : α → Aborting ε ω} {as : List α} :
    (each f as).thrown = none ↔ ∀ a ∈ as, (f a).thrown = none := by
  induction as with
  | nil => simp [skip]
  | cons a as ih => rw [each_cons, thrown_andThen, ih, List.forall_mem_cons]

/-- What a loop has done that returns. -/
theorem mem_done_each {f : α → Aborting ε ω} {as : List α} (h : ∀ a ∈ as, (f a).thrown = none)
    {o : ω} : o ∈ (each f as).done ↔ ∃ a ∈ as, o ∈ (f a).done := by
  induction as with
  | nil => simp [skip]
  | cons a as ih =>
      obtain ⟨ha, has⟩ := List.forall_mem_cons.mp h
      rw [each_cons, andThen_of_returns ha, List.mem_append, ih has]
      simp

/-- What follows a round that throws is not attempted. -/
theorem each_append_cons_of_throws {f : α → Aborting ε ω} {before : List α} {a : α} {e : ε}
    (hbefore : ∀ b ∈ before, (f b).thrown = none) (ha : (f a).thrown = some e) (after : List α) :
    each f (before ++ a :: after) = (each f before).andThen (f a) := by
  induction before with
  | nil => rw [List.nil_append, each_cons, andThen_of_throws ha, each_nil, skip_andThen]
  | cons b before ih =>
      rw [List.cons_append, each_cons, ih fun c hc => hbefore c (List.mem_cons_of_mem b hc),
        each_cons, andThen_assoc]

end Aborting
