import Mathlib.Algebra.BigOperators.Group.List.Basic

/-!
# Sums over a relation of two lists

Each index takes part in some of the items. The sums of its items, added up over the indices, count an
item as often as indices take part in it (`sum_sum_filter`); with at most one index for each item
they are the sum over the items that have one (`sum_sum_filter_of_unique`).
-/

set_option autoImplicit false

namespace Incidence

variable {ι α M : Type} [AddCommMonoid M]

/-- A sum over some items is one over all, with zeros for the others. -/
theorem sum_map_filter (p : α → Bool) (f : α → M) (items : List α) :
    ((items.filter p).map f).sum = (items.map fun a => if p a then f a else 0).sum := by
  induction items with
  | nil => rfl
  | cons a items ih =>
      rw [List.filter_cons, List.map_cons, List.sum_cons, ← ih]
      cases hp : p a with
      | true => simp
      | false => simp

/-- **Double counting.** -/
theorem sum_sum_filter (r : ι → α → Bool) (f : α → M) (indices : List ι) (items : List α) :
    (indices.map fun i => ((items.filter (r i)).map f).sum).sum =
      (items.map fun a => (indices.countP fun i => r i a) • f a).sum := by
  induction indices with
  | nil => simp
  | cons i indices ih =>
      rw [List.map_cons, List.sum_cons, ih, sum_map_filter, ← List.sum_map_add]
      congr 1
      refine List.map_congr_left fun a _ => ?_
      rw [List.countP_cons, add_nsmul]
      cases hr : r i a with
      | true => rw [if_pos rfl, if_pos rfl, one_nsmul, add_comm]
      | false => simp

/-- Of distinct indices that are equal as soon as they meet a condition, at most one meets it. -/
theorem countP_of_unique {p : ι → Bool} {indices : List ι} (hnodup : indices.Nodup)
    (hone : ∀ i ∈ indices, ∀ j ∈ indices, p i = true → p j = true → i = j) :
    indices.countP p = if indices.any p then 1 else 0 := by
  induction indices with
  | nil => rfl
  | cons i indices ih =>
      obtain ⟨hfresh, hrest⟩ := List.nodup_cons.mp hnodup
      have htail := ih hrest fun j hj k hk =>
        hone j (List.mem_cons_of_mem i hj) k (List.mem_cons_of_mem i hk)
      rw [List.countP_cons, htail, List.any_cons]
      cases hi : p i with
      | false => simp
      | true =>
          -- no other index meets the condition
          have hnone : indices.any p = false := by
            rw [List.any_eq_false]
            intro j hj hpj
            have heq : i = j := hone i List.mem_cons_self j (List.mem_cons_of_mem i hj) hi hpj
            exact hfresh (heq ▸ hj)
          simp [hnone]

/-- With at most one index for each item that counts, the sums add up to the one over the items that
have an index. -/
theorem sum_sum_filter_of_unique {r : ι → α → Bool} {f : α → M} {indices : List ι} {items : List α}
    (hnodup : indices.Nodup)
    (hone : ∀ a ∈ items, f a ≠ 0 → ∀ i ∈ indices, ∀ j ∈ indices,
      r i a = true → r j a = true → i = j) :
    (indices.map fun i => ((items.filter (r i)).map f).sum).sum =
      ((items.filter fun a => indices.any fun i => r i a).map f).sum := by
  rw [sum_sum_filter, sum_map_filter]
  congr 1
  refine List.map_congr_left fun a ha => ?_
  by_cases hf : f a = 0
  · simp [hf]
  · rw [countP_of_unique hnodup (hone a ha hf)]
    cases indices.any fun i => r i a with
    | true => rw [if_pos rfl, if_pos rfl, one_nsmul]
    | false => simp

/-- The items, split by whether they have an index. -/
theorem sum_filter_add_sum_filter_not (p : α → Bool) (f : α → M) (items : List α) :
    ((items.filter p).map f).sum + ((items.filter fun a => !p a).map f).sum =
      (items.map f).sum := by
  rw [sum_map_filter, sum_map_filter, ← List.sum_map_add]
  congr 1
  refine List.map_congr_left fun a _ => ?_
  cases p a with
  | true => simp
  | false => simp

end Incidence
