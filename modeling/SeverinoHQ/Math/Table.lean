/-
# Tables of rows

A stored table is the list of its rows. The two statements that change rows in
place, an update and a delete of the rows a condition selects, are stated here
over any row type, with what each does to membership and to a key column.
-/

import Mathlib.Data.List.Nodup

namespace SeverinoHQ.Math.Table

universe u v

variable {ρ : Type u} {κ : Type v}

/-- `UPDATE`: the rows `selects` picks are replaced by what `write` makes of them. -/
def update (rows : List ρ) (selects : ρ → Bool) (write : ρ → ρ) : List ρ :=
  rows.map fun row => if selects row then write row else row

/-- `DELETE`: the rows `selects` picks are gone. -/
def delete (rows : List ρ) (selects : ρ → Bool) : List ρ :=
  rows.filter fun row => !selects row

theorem mem_update {rows : List ρ} {selects : ρ → Bool} {write : ρ → ρ} {row : ρ} :
    row ∈ update rows selects write ↔
      (row ∈ rows ∧ selects row = false) ∨ ∃ old ∈ rows, selects old = true ∧ write old = row := by
  constructor
  · intro hrow
    obtain ⟨old, hold, rfl⟩ := List.mem_map.mp hrow
    cases hselects : selects old with
    | true => exact Or.inr ⟨old, hold, hselects, by simp⟩
    | false => exact Or.inl ⟨by simpa using hold, by simpa using hselects⟩
  · rintro (⟨hrow, hselects⟩ | ⟨old, hold, hselects, rfl⟩)
    · exact List.mem_map.mpr ⟨row, hrow, by simp [hselects]⟩
    · exact List.mem_map.mpr ⟨old, hold, by simp [hselects]⟩

@[simp]
theorem mem_delete {rows : List ρ} {selects : ρ → Bool} {row : ρ} :
    row ∈ delete rows selects ↔ row ∈ rows ∧ selects row = false := by
  simp [delete]

/-- A write that keeps a column keeps it over the whole table. -/
theorem map_update (column : ρ → κ) {rows : List ρ} {selects : ρ → Bool} {write : ρ → ρ}
    (hcolumn : ∀ row ∈ rows, selects row = true → column (write row) = column row) :
    (update rows selects write).map column = rows.map column := by
  rw [update, List.map_map]
  apply List.map_congr_left
  intro row hrow
  by_cases hselects : selects row = true
  · simpa [hselects] using hcolumn row hrow hselects
  · simp [hselects]

theorem nodup_map_delete {column : ρ → κ} {rows : List ρ} (hnodup : (rows.map column).Nodup)
    (selects : ρ → Bool) : ((delete rows selects).map column).Nodup :=
  hnodup.sublist (List.filter_sublist.map column)

theorem nodup_map_append_singleton {column : ρ → κ} {rows : List ρ} {row : ρ}
    (hnodup : (rows.map column).Nodup) (hfresh : ∀ old ∈ rows, column old ≠ column row) :
    ((rows ++ [row]).map column).Nodup := by
  rw [List.map_append, List.nodup_append]
  refine ⟨hnodup, by simp, ?_⟩
  intro value hvalue other hother
  obtain ⟨old, hold, rfl⟩ := List.mem_map.mp hvalue
  simp only [List.map_cons, List.map_nil, List.mem_singleton] at hother
  exact hother ▸ hfresh old hold

/-- Rows of a table with a unique column are told apart by it. -/
theorem eq_of_column_eq {column : ρ → κ} {rows : List ρ} (hnodup : (rows.map column).Nodup)
    {row other : ρ} (hrow : row ∈ rows) (hother : other ∈ rows)
    (hcolumn : column row = column other) : row = other :=
  List.inj_on_of_nodup_map hnodup hrow hother hcolumn

/-- An update that keeps the column a lookup goes by rewrites what it finds. -/
theorem find?_update {finds : ρ → Bool} {write : ρ → ρ}
    (hwrite : ∀ row, finds (write row) = finds row) (selects : ρ → Bool) (rows : List ρ) :
    (update rows selects write).find? finds =
      (rows.find? finds).map fun row => if selects row then write row else row := by
  induction rows with
  | nil => rfl
  | cons row rows ih =>
      rw [update, List.map_cons, ← update]
      have hrow : finds (if selects row then write row else row) = finds row := by
        split
        · exact hwrite row
        · rfl
      cases hfinds : finds row with
      | true => rw [List.find?_cons_of_pos (by rw [hrow, hfinds]),
          List.find?_cons_of_pos hfinds, Option.map_some]
      | false => rw [List.find?_cons_of_neg (by rw [hrow, hfinds]; simp),
          List.find?_cons_of_neg (by rw [hfinds]; simp), ih]

/-- The row under a key, once the row under one key is replaced. -/
theorem find?_replace [DecidableEq κ] (column : ρ → κ) (rows : List ρ) (new : ρ) (key : κ) :
    (update rows (fun row => column row == column new) fun _ => new).find?
        (fun row => column row == key) =
      (rows.find? fun row => column row == key).map fun row =>
        if column row == column new then new else row := by
  induction rows with
  | nil => rfl
  | cons row rows ih =>
      rw [update, List.map_cons, ← update]
      have hcolumn : column (if column row == column new then new else row) = column row := by
        split_ifs with hsame
        · exact (by simpa using hsame : column row = column new).symm
        · rfl
      cases hfinds : column row == key with
      | true => rw [List.find?_cons_of_pos (by rw [hcolumn, hfinds]),
          List.find?_cons_of_pos (p := fun row => column row == key) hfinds, Option.map_some]
      | false => rw [List.find?_cons_of_neg (by rw [hcolumn, hfinds]; simp),
          List.find?_cons_of_neg (p := fun row => column row == key) (by rw [hfinds]; simp), ih]

end SeverinoHQ.Math.Table
