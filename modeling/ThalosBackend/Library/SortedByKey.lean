import Mathlib.Data.List.Sort

/-!
# Sorting by a key

A comparison that is only known to agree with the order of a key on the members of one list sorts this
list as the key does: the first is a least one, the last is a greatest one.
-/

set_option autoImplicit false

namespace SortedByKey

variable {α κ : Type*} [LinearOrder κ] {r : α → α → Prop} {key : α → κ} {l : List α}

/-- On the list, the comparison is the order of the keys. -/
def SortsBy (r : α → α → Prop) (key : α → κ) (l : List α) : Prop :=
  ∀ a ∈ l, ∀ b ∈ l, (r a b ↔ key a ≤ key b)

/-- A sublist is compared the same way. -/
theorem SortsBy.subset {l' : List α} (h : SortsBy r key l) (hsub : ∀ a ∈ l', a ∈ l) :
    SortsBy r key l' := by
  intro a ha b hb
  exact h a (hsub a ha) b (hsub b hb)

variable [DecidableRel r]

/-- The list is in the order of its keys after the sort. -/
theorem SortsBy.pairwise (h : SortsBy r key l) :
    (l.insertionSort r).Pairwise fun a b => key a ≤ key b := by
  have : Std.Total fun a b : α => key a ≤ key b := ⟨fun a b => le_total (key a) (key b)⟩
  have : IsTrans α fun a b => key a ≤ key b := ⟨fun _ _ _ => le_trans⟩
  have hsame := List.map_insertionSort r (fun a b => key a ≤ key b) id l h
  rw [List.map_id, List.map_id] at hsame
  rw [hsame]
  exact List.pairwise_insertionSort _ l

/-- The first one is a least one. -/
theorem SortsBy.head?_le (h : SortsBy r key l) {a : α} (ha : (l.insertionSort r).head? = some a) :
    a ∈ l ∧ ∀ b ∈ l, key a ≤ key b := by
  obtain ⟨rest, hrest⟩ := List.head?_eq_some_iff.mp ha
  have hsorted := h.pairwise
  rw [hrest, List.pairwise_cons] at hsorted
  refine ⟨(List.mem_insertionSort r).mp (hrest ▸ List.mem_cons_self), fun b hb => ?_⟩
  have hmem : b ∈ a :: rest := hrest ▸ (List.mem_insertionSort r).mpr hb
  rcases List.mem_cons.mp hmem with rfl | hb
  · exact le_rfl
  · exact hsorted.1 b hb

/-- The last one is a greatest one. -/
theorem SortsBy.le_getLast? (h : SortsBy r key l) {a : α}
    (ha : (l.insertionSort r).getLast? = some a) : a ∈ l ∧ ∀ b ∈ l, key b ≤ key a := by
  obtain ⟨rest, hrest⟩ := List.getLast?_eq_some_iff.mp ha
  have hsorted := h.pairwise
  rw [hrest, List.pairwise_append] at hsorted
  refine ⟨(List.mem_insertionSort r).mp (hrest ▸ by simp), fun b hb => ?_⟩
  have hmem : b ∈ rest ++ [a] := hrest ▸ (List.mem_insertionSort r).mpr hb
  rcases List.mem_append.mp hmem with hb | hb
  · exact hsorted.2.2 b hb a (List.mem_singleton_self a)
  · rw [List.mem_singleton.mp hb]

end SortedByKey
