import Mathlib.Data.List.Forall2
import Mathlib.Data.List.Nodup

/-!
# Tables of rows

A table is the list of its rows. `updateWhere` is an update of the rows that meet a condition, and
`Unique` says that no two rows agree in a key. `At` speaks about the row under a key: it is there and
has a property. The lemmas say what an update or a new row does to a single row, to a column, to a
key, and to the row under one.

`Extends` relates a table to a later one: the rows that were there have each become another, and new
ones came behind them.
-/

set_option autoImplicit false

namespace Table

universe u v w

variable {α : Type u} {β : Type w} {κ : Type v}

/-- Rewrite the rows that meet the condition, in place. -/
def updateWhere (p : α → Bool) (f : α → α) (rows : List α) : List α :=
  rows.map fun row => if p row then f row else row

/-- The row of a table that has one. -/
def sole : List α → Option α
  | [row] => some row
  | _ => none

/-- No two rows have the same key. -/
def Unique (key : α → κ) (rows : List α) : Prop := (rows.map key).Nodup

variable {p : α → Bool} {f : α → α} {rows : List α} {key : α → κ}

theorem sole_eq_some {row : α} : sole rows = some row ↔ rows = [row] := by
  constructor
  · intro h
    match rows, h with
    | [_], h => cases h; rfl
  · rintro rfl
    rfl

/-- A row after an update is a row that was there, rewritten if it met the condition. -/
theorem mem_updateWhere {row : α} :
    row ∈ updateWhere p f rows ↔ ∃ old ∈ rows, row = if p old then f old else old := by
  simp only [updateWhere, List.mem_map, eq_comm]

/-- What holds of the rows left alone, and of the rewritten ones, holds of all. -/
theorem forall_mem_updateWhere {P : α → Prop} (hkeep : ∀ row ∈ rows, p row = false → P row)
    (hnew : ∀ row ∈ rows, p row = true → P (f row)) : ∀ row ∈ updateWhere p f rows, P row := by
  intro row hrow
  obtain ⟨old, hold, rfl⟩ := mem_updateWhere.mp hrow
  cases hp : p old with
  | false => simpa [hp] using hkeep old hold hp
  | true => simpa [hp] using hnew old hold hp

/-- An update that meets one row replaces it. -/
theorem updateWhere_of_filter_eq_singleton {row : α} (h : rows.filter p = [row]) :
    ∃ before after, rows = before ++ row :: after ∧
      updateWhere p f rows = before ++ f row :: after := by
  obtain ⟨before, after, rfl, hbefore, hrow, hafter⟩ := List.filter_eq_cons_iff.mp h
  have hkeep : ∀ others : List α, (∀ x ∈ others, ¬ p x = true) → updateWhere p f others = others := by
    intro others hothers
    rw [updateWhere]
    exact (List.map_congr_left fun x hx => if_neg (hothers x hx)).trans (List.map_id' others)
  refine ⟨before, after, rfl, ?_⟩
  have hsplit : updateWhere p f (before ++ row :: after) =
      updateWhere p f before ++ (if p row then f row else row) :: updateWhere p f after := by
    simp [updateWhere]
  rw [hsplit, hkeep before hbefore, hkeep after (List.filter_eq_nil_iff.mp hafter), if_pos hrow]

/-- An update changes nothing exactly when it rewrites every row it meets to itself. -/
theorem updateWhere_eq_self_iff :
    updateWhere p f rows = rows ↔ ∀ row ∈ rows, p row = true → f row = row := by
  induction rows with
  | nil => simp [updateWhere]
  | cons row rest ih =>
      rw [List.forall_mem_cons, ← ih]
      cases hp : p row <;> simp [updateWhere, hp]

/-- An update that meets no row changes nothing. -/
theorem updateWhere_eq_self (h : ∀ row ∈ rows, p row = false) : updateWhere p f rows = rows := by
  refine updateWhere_eq_self_iff.mpr fun row hrow hp => ?_
  rw [h row hrow] at hp
  cases hp

/-- A column the rewriting leaves alone is the same before and after. -/
theorem map_updateWhere {γ : Type*} {g : α → γ} (h : ∀ row, p row = true → g (f row) = g row) :
    (updateWhere p f rows).map g = rows.map g := by
  simp only [updateWhere, List.map_map]
  refine List.map_congr_left fun row _ => ?_
  by_cases hp : p row = true
  · simp [hp, h row hp]
  · simp [hp]

/-- An update that moves no row into a selection or out of it keeps the number of selected rows. -/
theorem length_filter_updateWhere {q : α → Bool}
    (h : ∀ row ∈ rows, p row = true → q (f row) = q row) :
    ((updateWhere p f rows).filter q).length = (rows.filter q).length := by
  induction rows with
  | nil => rfl
  | cons row rest ih =>
      rw [List.forall_mem_cons] at h
      have hrest := ih h.2
      rw [updateWhere] at hrest ⊢
      rw [List.map_cons, List.filter_cons, List.filter_cons]
      cases hp : p row with
      | true => cases hq : q row <;> simp [hrest, h.1 hp, hq]
      | false => cases hq : q row <;> simp [hrest, hq]

/-- An update of rows outside a selection, which stay outside, leaves the selection alone. -/
theorem filter_updateWhere_eq {q : α → Bool}
    (h : ∀ row ∈ rows, p row = true → q row = false ∧ q (f row) = false) :
    (updateWhere p f rows).filter q = rows.filter q := by
  induction rows with
  | nil => rfl
  | cons row rest ih =>
      rw [List.forall_mem_cons] at h
      have hrest := ih h.2
      rw [updateWhere] at hrest ⊢
      rw [List.map_cons, List.filter_cons, List.filter_cons, hrest]
      cases hp : p row with
      | true => simp [h.1 hp]
      | false => simp

/-- An update that moves rows out of a selection only shrinks it. -/
theorem filter_updateWhere_sublist {q : α → Bool}
    (h : ∀ row ∈ rows, p row = true → q (f row) = false) :
    ((updateWhere p f rows).filter q).Sublist (rows.filter q) := by
  induction rows with
  | nil => exact .slnil
  | cons row rest ih =>
      rw [List.forall_mem_cons] at h
      have hrest := ih h.2
      rw [updateWhere] at hrest ⊢
      rw [List.map_cons, List.filter_cons, List.filter_cons]
      cases hp : p row with
      | true => cases hq : q row <;> simp [h.1 hp, hrest, hrest.cons]
      | false => cases hq : q row <;> simp [hq, hrest]

/-- Rows with the same key are the same row. -/
theorem Unique.eq {row row' : α} (h : Unique key rows) (hrow : row ∈ rows) (hrow' : row' ∈ rows)
    (heq : key row = key row') : row = row' :=
  List.inj_on_of_nodup_map h hrow hrow' heq

/-- With unique keys a row is found alone under its key. -/
theorem Unique.filter_key [DecidableEq κ] {row : α} (h : Unique key rows) (hrow : row ∈ rows) :
    rows.filter (fun old => key old = key row) = [row] := by
  induction rows with
  | nil => cases hrow
  | cons first rest ih =>
      rw [Unique, List.map_cons, List.nodup_cons] at h
      rcases List.mem_cons.mp hrow with rfl | hrow
      · have hrest : rest.filter (fun old => key old = key row) = [] := by
          refine List.filter_eq_nil_iff.mpr fun old hold heq => h.1 ?_
          rw [← of_decide_eq_true heq]
          exact List.mem_map_of_mem hold
        rw [List.filter_cons_of_pos (by simp), hrest]
      · have hne : key first ≠ key row := by
          intro heq
          rw [heq] at h
          exact h.1 (List.mem_map_of_mem hrow)
        rw [List.filter_cons_of_neg (by simpa using hne)]
        exact ih h.2 hrow

/-- A new row with a free key keeps the key unique. -/
theorem Unique.concat {row : α} (h : Unique key rows) (hfree : ∀ old ∈ rows, key old ≠ key row) :
    Unique key (rows ++ [row]) := by
  rw [Unique, List.map_append]
  refine List.Nodup.append h (List.nodup_singleton _) ?_
  intro k hk hk'
  obtain ⟨old, hold, rfl⟩ := List.mem_map.mp hk
  exact hfree old hold (by simpa using hk')

/-- An update that leaves the key alone keeps it unique. -/
theorem Unique.updateWhere (h : Unique key rows) (hf : ∀ row, p row = true → key (f row) = key row) :
    Unique key (updateWhere p f rows) := by
  rw [Unique, map_updateWhere hf]
  exact h

/-- There is a row under the key, and every row under it has the property. -/
structure At (key : α → κ) (k : κ) (P : α → Prop) (rows : List α) : Prop where
  exists_row : ∃ row ∈ rows, key row = k
  all : ∀ row ∈ rows, key row = k → P row

namespace At

variable {k : κ} {P Q : α → Prop}

theorem mono (h : At key k P rows) (hPQ : ∀ row, P row → Q row) : At key k Q rows :=
  ⟨h.exists_row, fun row hrow hk => hPQ row (h.all row hrow hk)⟩

/-- With unique keys a row stands alone under its key. -/
theorem of_unique (hu : Unique key rows) {row : α} (hrow : row ∈ rows) (hP : P row) :
    At key (key row) P rows := by
  refine ⟨⟨row, hrow, rfl⟩, fun row' hrow' hk => ?_⟩
  rw [hu.eq hrow' hrow hk]
  exact hP

/-- An update that keeps the keys turns a property into another one if it does so on the rows it
rewrites and the others have it already. -/
theorem updateWhere (h : At key k P rows) (hf : ∀ row, p row = true → key (f row) = key row)
    (hnew : ∀ row ∈ rows, key row = k → P row → p row = true → Q (f row))
    (hkeep : ∀ row ∈ rows, key row = k → P row → p row = false → Q row) :
    At key k Q (updateWhere p f rows) := by
  obtain ⟨⟨row, hrow, hk⟩, hall⟩ := h
  refine ⟨⟨_, mem_updateWhere.mpr ⟨row, hrow, rfl⟩, ?_⟩, ?_⟩
  · by_cases hp : p row = true
    · rw [if_pos hp, hf row hp, hk]
    · rw [if_neg hp, hk]
  · refine forall_mem_updateWhere (fun row hrow hp hk => ?_) (fun row hrow hp hk => ?_)
    · exact hkeep row hrow hk (hall row hrow hk) hp
    · rw [hf row hp] at hk
      exact hnew row hrow hk (hall row hrow hk) hp

/-- An update of other keys leaves the row alone. -/
theorem updateWhere_ne (h : At key k P rows) (hf : ∀ row, p row = true → key (f row) = key row)
    (hne : ∀ row, p row = true → key row ≠ k) : At key k P (Table.updateWhere p f rows) :=
  h.updateWhere hf (fun row _ hk _ hp => absurd hk (hne row hp)) fun _ _ _ hP _ => hP

/-- A new row under another key leaves the row alone. -/
theorem concat {row : α} (h : At key k P rows) (hfresh : ∀ old ∈ rows, key old ≠ key row) :
    At key k P (rows ++ [row]) := by
  obtain ⟨⟨old, hold, hk⟩, hall⟩ := h
  refine ⟨⟨old, List.mem_append_left _ hold, hk⟩, fun row' hrow' hk' => ?_⟩
  rcases List.mem_append.mp hrow' with hrow' | hrow'
  · exact hall row' hrow' hk'
  · rw [List.mem_singleton.mp hrow'] at hk'
    exact absurd (hk.trans hk'.symm) (hfresh old hold)

end At

/-! ## Tables before and after -/

/-- Row by row, one step after the other. -/
theorem forall₂_trans {R S T : α → α → Prop} (h : ∀ a b c, R a b → S b c → T a c)
    {rows₁ rows₂ rows₃ : List α} (h₁ : List.Forall₂ R rows₁ rows₂)
    (h₂ : List.Forall₂ S rows₂ rows₃) : List.Forall₂ T rows₁ rows₃ := by
  induction h₁ generalizing rows₃ with
  | nil =>
      cases h₂
      exact .nil
  | cons hR _ ih =>
      cases h₂ with
      | cons hS hrest => exact .cons (h _ _ _ hR hS) (ih hrest)

/-- A relation of rows that are in the earlier table. -/
theorem forall₂_imp_mem {R S : α → α → Prop} {rows rows' : List α} (h : List.Forall₂ R rows rows')
    (hS : ∀ a b, a ∈ rows → R a b → S a b) : List.Forall₂ S rows rows' := by
  induction h with
  | nil => exact .nil
  | cons hR _ ih =>
      refine .cons (hS _ _ List.mem_cons_self hR) (ih fun a b ha => ?_)
      exact hS a b (List.mem_cons_of_mem _ ha)

/-- Every row of the later table comes from one that was there. -/
theorem exists_of_forall₂_right {R : α → β → Prop} {rows : List α} {rows' : List β}
    (h : List.Forall₂ R rows rows') {row' : β} (hrow : row' ∈ rows') : ∃ row ∈ rows, R row row' := by
  induction h with
  | nil => cases hrow
  | cons hR _ ih =>
      rcases List.mem_cons.mp hrow with rfl | hrow
      · exact ⟨_, List.mem_cons_self, hR⟩
      · obtain ⟨row, hmem, hR⟩ := ih hrow
        exact ⟨row, List.mem_cons_of_mem _ hmem, hR⟩

/-- Every row of the earlier table has become one. -/
theorem exists_of_forall₂_left {R : α → β → Prop} {rows : List α} {rows' : List β}
    (h : List.Forall₂ R rows rows') {row : α} (hrow : row ∈ rows) : ∃ row' ∈ rows', R row row' := by
  induction h with
  | nil => cases hrow
  | cons hR _ ih =>
      rcases List.mem_cons.mp hrow with rfl | hrow
      · exact ⟨_, List.mem_cons_self, hR⟩
      · obtain ⟨row', hmem, hR⟩ := ih hrow
        exact ⟨row', List.mem_cons_of_mem _ hmem, hR⟩

/-- A column that no row changes is the same. -/
theorem map_eq_of_forall₂ {R : α → β → Prop} {g : α → κ} {g' : β → κ}
    (hR : ∀ a b, R a b → g' b = g a) {rows : List α} {rows' : List β}
    (h : List.Forall₂ R rows rows') : rows'.map g' = rows.map g := by
  induction h with
  | nil => rfl
  | cons hrow _ ih => rw [List.map_cons, List.map_cons, hR _ _ hrow, ih]

/-- The rows have become others, and new ones came. -/
def Extends (R : α → α → Prop) (rows rows' : List α) : Prop :=
  ∃ kept new, rows' = kept ++ new ∧ List.Forall₂ R rows kept

namespace Extends

variable {R : α → α → Prop} {rows₁ rows₂ rows₃ : List α}

theorem of_forall₂ (h : List.Forall₂ R rows₁ rows₂) : Extends R rows₁ rows₂ :=
  ⟨rows₂, [], (List.append_nil _).symm, h⟩

theorem refl (hR : ∀ a, R a a) (rows : List α) : Extends R rows rows :=
  of_forall₂ (List.forall₂_same.mpr fun a _ => hR a)

theorem concat (hR : ∀ a, R a a) (rows : List α) (row : α) : Extends R rows (rows ++ [row]) :=
  ⟨rows, [row], rfl, List.forall₂_same.mpr fun a _ => hR a⟩

theorem trans (hR : ∀ a b c, R a b → R b c → R a c) (h₁ : Extends R rows₁ rows₂)
    (h₂ : Extends R rows₂ rows₃) : Extends R rows₁ rows₃ := by
  obtain ⟨kept, new, rfl, h₁⟩ := h₁
  obtain ⟨kept', new', rfl, h₂⟩ := h₂
  -- the rows that are kept twice are the first ones of those kept the second time
  have hfront : List.Forall₂ R kept (kept'.take kept.length) := by
    have htake := List.forall₂_take kept.length h₂
    rwa [List.take_left] at htake
  refine ⟨kept'.take kept.length, kept'.drop kept.length ++ new', ?_, forall₂_trans hR h₁ hfront⟩
  rw [← List.append_assoc, List.take_append_drop]

/-- A row that was there has become one of the later rows. -/
theorem exists_row (h : Extends R rows₁ rows₂) {row : α} (hrow : row ∈ rows₁) :
    ∃ row' ∈ rows₂, R row row' := by
  obtain ⟨kept, new, rfl, h⟩ := h
  obtain ⟨row', hmem, hR⟩ := exists_of_forall₂_left h hrow
  exact ⟨row', List.mem_append_left _ hmem, hR⟩

end Extends

end Table
