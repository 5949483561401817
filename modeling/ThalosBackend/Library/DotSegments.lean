import Mathlib.Data.List.Basic

/-!
# Dot segments

A path is resolved from the left: a name is pushed, a step up pops what is on top, and nothing
happens at the root. `settle` reads the same path from the right, where a step up cancels the next
name before it. What it leaves is how far the path climbs above its start and which names stay;
`resolve_eq` says that the two readings agree. `resolve_within_iff` says from there when a path ends
below one of some directories.
-/

set_option autoImplicit false

universe u

namespace DotSegments

/-- What a segment does: it goes up, stays, or names an entry. -/
inductive Kind where
  | up
  | here
  | name
  deriving DecidableEq

variable {α : Type u} (kind : α → Kind)

/-- One segment, from the left. -/
def push (stack : List α) (s : α) : List α :=
  match kind s with
  | .up => stack.dropLast
  | .here => stack
  | .name => stack ++ [s]

/-- The path, from the left. -/
def resolve (stack segments : List α) : List α := segments.foldl (push kind) stack

/-- The path, from the right: the steps up no name in it answers, and the names that stay. -/
def settle : List α → ℕ × List α
  | [] => (0, [])
  | s :: rest =>
    match kind s, settle rest with
    | .up, (climbs, kept) => (climbs + 1, kept)
    | .here, (climbs, kept) => (climbs, kept)
    | .name, (0, kept) => (0, s :: kept)
    | .name, (climbs + 1, kept) => (climbs, kept)

variable {kind}

@[simp] theorem resolve_nil (stack : List α) : resolve kind stack [] = stack := rfl

@[simp] theorem resolve_cons (stack : List α) (s : α) (rest : List α) :
    resolve kind stack (s :: rest) = resolve kind (push kind stack s) rest := rfl

theorem resolve_append (stack segments rest : List α) :
    resolve kind stack (segments ++ rest) = resolve kind (resolve kind stack segments) rest :=
  List.foldl_append

/-- Names are pushed one after the other. -/
theorem resolve_names {segments : List α} (h : ∀ s ∈ segments, kind s = .name) (stack : List α) :
    resolve kind stack segments = stack ++ segments := by
  induction segments generalizing stack with
  | nil => simp
  | cons s rest ih =>
      rw [resolve_cons, ih fun t ht => h t (List.mem_cons_of_mem s ht)]
      simp [push, h s List.mem_cons_self]

/-- **The two readings agree.** -/
theorem resolve_eq (stack segments : List α) :
    resolve kind stack segments =
      stack.take (stack.length - (settle kind segments).1) ++ (settle kind segments).2 := by
  induction segments generalizing stack with
  | nil => simp [settle]
  | cons s rest ih =>
      rw [resolve_cons, ih]
      rcases hsettle : settle kind rest with ⟨climbs, kept⟩
      cases hkind : kind s with
      | up =>
          simp only [push, hkind, settle, hsettle, List.dropLast_eq_take, List.length_take,
            List.take_take]
          congr 2
          omega
      | here => simp only [push, hkind, settle, hsettle]
      | name =>
          cases climbs with
          | zero =>
              simp only [push, hkind, settle, hsettle, Nat.sub_zero, List.take_length]
              rw [List.append_assoc, List.singleton_append]
          | succ climbs =>
              have hle : (stack ++ [s]).length - (climbs + 1) ≤ stack.length := by
                simp only [List.length_append, List.length_singleton]
                omega
              simp only [push, hkind, settle, hsettle, List.take_append_of_le_length hle]
              simp

/-- A path whose last segment is a name keeps it. -/
theorem settle_ne_nil {segments : List α} {last : α} (hlast : kind last = .name) :
    (settle kind (segments ++ [last])).2 ≠ [] := by
  induction segments with
  | nil => simp [settle, hlast]
  | cons s rest ih =>
      rw [List.cons_append]
      rcases hsettle : settle kind (rest ++ [last]) with ⟨climbs, kept⟩
      rw [hsettle] at ih
      cases hkind : kind s with
      | up => simpa only [settle, hkind, hsettle] using ih
      | here => simpa only [settle, hkind, hsettle] using ih
      | name =>
          cases climbs with
          | zero => simp [settle, hkind, hsettle]
          | succ climbs => simpa only [settle, hkind, hsettle] using ih

/-- The path is in one of the directories, or below it. -/
def Within (base names path : List α) : Prop :=
  ∃ name ∈ names, ∃ entry rest, path = base ++ name :: entry :: rest

/-- **Where a path ends.** From one of the directories, a path whose last segment is a name ends in one
of them if it never climbs out of the first, or if the names that stay lead back: through what it has
climbed of the base, and into a directory. -/
theorem resolve_within_iff {base names segments : List α} {first last : α} (hfirst : first ∈ names)
    (hlast : kind last = .name) :
    Within base names (resolve kind (base ++ [first]) (segments ++ [last])) ↔
      (settle kind (segments ++ [last])).1 = 0 ∨
        ∃ name ∈ names, ∃ entry rest, (settle kind (segments ++ [last])).2 =
          base.drop (base.length + 1 - (settle kind (segments ++ [last])).1) ++
            name :: entry :: rest := by
  have hkept : (settle kind (segments ++ [last])).2 ≠ [] := settle_ne_nil hlast
  rw [resolve_eq]
  generalize settle kind (segments ++ [last]) = settled at hkept ⊢
  obtain ⟨climbs, kept⟩ := settled
  cases climbs with
  | zero =>
      obtain ⟨entry, rest, rfl⟩ := List.exists_cons_of_ne_nil hkept
      simp only [true_or, iff_true]
      refine ⟨first, hfirst, entry, rest, ?_⟩
      rw [Nat.sub_zero, List.take_length, List.append_assoc]
      rfl
  | succ climbs =>
      have hlength : (base ++ [first]).length - (climbs + 1) = base.length - climbs := by simp
      have hbelow : base.length + 1 - (climbs + 1) = base.length - climbs := by omega
      have htake : (base ++ [first]).take (base.length - climbs) = base.take (base.length - climbs) :=
        List.take_append_of_le_length (Nat.sub_le _ _)
      simp only [Within, hlength, hbelow, htake, Nat.add_one_ne_zero, false_or]
      have hcancel : ∀ path, base.take (base.length - climbs) ++ kept = base ++ path ↔
          kept = base.drop (base.length - climbs) ++ path := by
        intro path
        have hsplit := List.take_append_drop (base.length - climbs) base
        rw [← List.append_cancel_left_eq (base.take (base.length - climbs)) kept, ← List.append_assoc,
          hsplit]
      simp only [hcancel]

end DotSegments
