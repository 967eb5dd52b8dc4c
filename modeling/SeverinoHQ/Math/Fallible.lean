/-
# Computations that may be refused

A refusal ends a computation where it is raised. What a computation that was not
refused did is read off its parts, each of which was not refused either.
-/

import Mathlib.Init

namespace SeverinoHQ.Math

universe u v

variable {ε : Type u} {α β : Type v}

theorem exists_of_bind_eq_ok {first : Except ε α} {rest : α → Except ε β} {value : β}
    (h : first >>= rest = .ok value) :
    ∃ middle, first = .ok middle ∧ rest middle = .ok value := by
  cases first with
  | error raised => cases h
  | ok middle => exact ⟨middle, rfl, h⟩

theorem exists_of_map_eq_ok {first : Except ε α} {value : β} {through : α → β}
    (h : first.map through = .ok value) : ∃ middle, first = .ok middle ∧ through middle = value := by
  cases first with
  | error raised => cases h
  | ok middle => exact ⟨middle, rfl, Except.ok.inj h⟩

/-- A refusal of a computation is its first part's, or its rest's. -/
theorem error_of_bind_eq_error {first : Except ε α} {rest : α → Except ε β} {raised : ε}
    (h : first >>= rest = .error raised) :
    first = .error raised ∨ ∃ middle, first = .ok middle ∧ rest middle = .error raised := by
  cases first with
  | error problem => exact Or.inl (by cases h; rfl)
  | ok middle => exact Or.inr ⟨middle, rfl, h⟩

/-- What every turn of a loop does to what it carries, and is reflexive and transitive, a
loop that is not refused does. -/
theorem related_of_foldlM_eq_ok {turn : β → α → Except ε β} (rel : β → β → Prop)
    (hrefl : ∀ value, rel value value)
    (htrans : ∀ {first second third}, rel first second → rel second third → rel first third)
    (hturn : ∀ {before item after}, turn before item = .ok after → rel before after)
    {items : List α} {before after : β} (h : items.foldlM turn before = .ok after) :
    rel before after := by
  induction items generalizing before with
  | nil =>
      obtain rfl := Except.ok.inj h
      exact hrefl _
  | cons item items ih =>
      rw [List.foldlM_cons] at h
      obtain ⟨middle, hmiddle, hrest⟩ := exists_of_bind_eq_ok h
      exact htrans (hturn hmiddle) (ih hrest)

/-! ## Every item of a list -/

section Refusals

variable {read : α → Except ε β} {items : List α}

theorem mapM_cons_eq_ok {item : α} {values : List β} :
    (item :: items).mapM read = .ok values ↔
      ∃ value rest, read item = .ok value ∧ items.mapM read = .ok rest ∧ values = value :: rest := by
  rw [List.mapM_cons]
  constructor
  · intro h
    obtain ⟨value, hvalue, hmore⟩ := exists_of_bind_eq_ok h
    obtain ⟨rest, hrest, hvalues⟩ := exists_of_bind_eq_ok hmore
    exact ⟨value, rest, hvalue, hrest, (Except.ok.inj hvalues).symm⟩
  · rintro ⟨value, rest, hvalue, hrest, rfl⟩
    rw [hvalue, hrest]
    rfl

/-- A loop is not refused as soon as none of its turns is. -/
theorem exists_mapM_eq_ok (h : ∀ item ∈ items, ∃ value, read item = .ok value) :
    ∃ values, items.mapM read = .ok values := by
  induction items with
  | nil => exact ⟨[], rfl⟩
  | cons item items ih =>
      obtain ⟨value, hvalue⟩ := h item List.mem_cons_self
      obtain ⟨rest, hrest⟩ := ih fun other hother => h other (List.mem_cons_of_mem item hother)
      exact ⟨value :: rest, mapM_cons_eq_ok.mpr ⟨value, rest, hvalue, hrest, rfl⟩⟩

theorem exists_of_mapM_eq_ok {values : List β} (h : items.mapM read = .ok values) {item : α}
    (hitem : item ∈ items) : ∃ value, read item = .ok value := by
  induction items generalizing values with
  | nil => cases hitem
  | cons first items ih =>
      obtain ⟨value, rest, hvalue, hrest, -⟩ := mapM_cons_eq_ok.mp h
      rcases List.mem_cons.mp hitem with rfl | hitem
      · exact ⟨value, hvalue⟩
      · exact ih hrest hitem

theorem mapM_eq_ok_map {through : α → β} (h : ∀ item ∈ items, read item = .ok (through item)) :
    items.mapM read = .ok (items.map through) := by
  induction items with
  | nil => rfl
  | cons item items ih =>
      have hrest := ih fun other hother => h other (List.mem_cons_of_mem item hother)
      exact mapM_cons_eq_ok.mpr ⟨_, _, h item List.mem_cons_self, hrest, rfl⟩

end Refusals

section Items

variable {read : α → Option β} {items : List α} {values : List β}

theorem mapM_cons_eq_some {item : α} :
    (item :: items).mapM read = some values ↔
      ∃ value rest, read item = some value ∧ items.mapM read = some rest ∧
        values = value :: rest := by
  rw [List.mapM_cons, Option.bind_eq_bind, Option.bind_eq_some_iff]
  simp [Option.bind_eq_some_iff, @eq_comm _ values]

/-- What a list is read to is what its items are read to. -/
theorem mem_of_mapM_eq_some (h : items.mapM read = some values) {value : β} :
    value ∈ values ↔ ∃ item ∈ items, read item = some value := by
  induction items generalizing values with
  | nil =>
      obtain rfl : values = [] := by simpa [eq_comm] using h
      simp
  | cons item items ih =>
      obtain ⟨first, rest, hfirst, hrest, rfl⟩ := mapM_cons_eq_some.mp h
      simp [ih hrest, hfirst, eq_comm]

/-- A list is read as soon as each of its items is. -/
theorem exists_mapM_eq_some (h : ∀ item ∈ items, ∃ value, read item = some value) :
    ∃ values, items.mapM read = some values := by
  induction items with
  | nil => exact ⟨[], by simp⟩
  | cons item items ih =>
      obtain ⟨first, hfirst⟩ := h item (by simp)
      obtain ⟨rest, hrest⟩ := ih fun other hother => h other (by simp [hother])
      exact ⟨first :: rest, mapM_cons_eq_some.mpr ⟨first, rest, hfirst, hrest, rfl⟩⟩

theorem exists_of_mapM_eq_some (h : items.mapM read = some values) {item : α}
    (hitem : item ∈ items) : ∃ value ∈ values, read item = some value := by
  induction items generalizing values with
  | nil => cases hitem
  | cons first items ih =>
      obtain ⟨value, rest, hvalue, hrest, rfl⟩ := mapM_cons_eq_some.mp h
      rcases List.mem_cons.mp hitem with rfl | hmem
      · exact ⟨value, by simp, hvalue⟩
      · obtain ⟨other, hother, hread⟩ := ih hrest hmem
        exact ⟨other, by simp [hother], hread⟩

end Items

end SeverinoHQ.Math
