/-
# Paths as a tree

A set of paths as a tree in which what a path names is kept whole, and what is on the way to it
is kept in part. Inserting a path that another one covers changes nothing, and inserting one that
covers others replaces them, so the tree says the same whatever the order of the paths.
-/

import SeverinoHQ.Math.Dict

namespace SeverinoHQ.Math

universe u

/-- What is kept at a place: all of it, or the parts under some keys. -/
inductive PathTree (κ : Type u) where
  | whole
  | parts (entries : List (κ × PathTree κ))

namespace PathTree

variable {κ : Type u}

/-- No key is listed twice, at any place. -/
inductive Formed : PathTree κ → Prop where
  | whole : Formed .whole
  | parts (entries : List (κ × PathTree κ)) (nodup : (entries.map Prod.fst).Nodup)
      (formed : ∀ entry ∈ entries, Formed entry.2) : Formed (.parts entries)

variable [DecidableEq κ]

/-- The tree, with what a path names kept whole. -/
@[grind =]
def insert : PathTree κ → List κ → PathTree κ
  | _, [] => .whole
  | .whole, _ :: _ => .whole
  | .parts entries, key :: path =>
      .parts (Dict.assign key (((entries.lookup key).getD (.parts [])).insert path) entries)

def ofPaths (paths : List (List κ)) : PathTree κ := paths.foldl insert (.parts [])

/-- What is kept at a place, none where nothing is. -/
@[grind =]
def reach : PathTree κ → List κ → Option (PathTree κ)
  | tree, [] => some tree
  | .whole, _ :: _ => some .whole
  | .parts entries, key :: place => (entries.lookup key).bind fun child => child.reach place

/-- The place is kept whole. -/
def Kept (tree : PathTree κ) (place : List κ) : Prop := tree.reach place = some .whole

/-- The place is on the way to what is kept. -/
def Passed (tree : PathTree κ) (place : List κ) : Prop :=
  ∃ entries, tree.reach place = some (.parts entries)

@[simp] theorem reach_whole (place : List κ) : reach .whole place = some .whole := by
  cases place <;> rfl

theorem kept_whole (place : List κ) : Kept .whole place := reach_whole place

theorem not_passed_whole (place : List κ) : ¬ Passed .whole place := by
  rintro ⟨entries, h⟩
  rw [reach_whole] at h
  exact nomatch h

theorem not_kept_of_passed {tree : PathTree κ} {place : List κ} (h : tree.Passed place) :
    ¬ tree.Kept place := by
  obtain ⟨entries, h⟩ := h
  intro hkept
  rw [Kept, h] at hkept
  exact nomatch hkept

theorem not_kept_nil (place : List κ) : ¬ Kept (.parts []) place := by
  cases place <;> simp [Kept, reach]

theorem passed_nil_iff (place : List κ) : Passed (.parts []) place ↔ place = [] := by
  cases place <;> simp [Passed, reach]

theorem reach_ne_none_iff (tree : PathTree κ) (place : List κ) :
    tree.reach place ≠ none ↔ tree.Kept place ∨ tree.Passed place := by
  rw [Kept, Passed]
  cases tree.reach place with
  | none => simp
  | some kept => cases kept <;> simp

theorem reach_append (tree : PathTree κ) (first second : List κ) :
    tree.reach (first ++ second) = (tree.reach first).bind fun kept => kept.reach second := by
  induction first generalizing tree with
  | nil => rfl
  | cons key first ih =>
      cases tree with
      | whole => simp
      | parts entries =>
          rw [List.cons_append, reach, reach, Option.bind_assoc]
          simp only [ih]

section Cons

variable (entries : List (κ × PathTree κ)) (key : κ) (place : List κ)

theorem kept_cons : Kept (.parts entries) (key :: place) ↔
    ((entries.lookup key).getD (.parts [])).Kept place := by
  rw [Kept, reach]
  cases entries.lookup key with
  | none => simpa using not_kept_nil place
  | some child => rfl

theorem passed_cons : Passed (.parts entries) (key :: place) ↔
    ∃ child, entries.lookup key = some child ∧ child.Passed place := by
  simp only [Passed, reach, Option.bind_eq_some_iff]
  constructor
  · rintro ⟨inner, child, hchild, hinner⟩
    exact ⟨child, hchild, inner, hinner⟩
  · rintro ⟨child, hchild, inner, hinner⟩
    exact ⟨inner, child, hchild, hinner⟩

theorem reach_assign (other : κ) (child : PathTree κ) :
    reach (.parts (Dict.assign key child entries)) (other :: place) =
      if other = key then child.reach place else reach (.parts entries) (other :: place) := by
  rw [reach, reach, Dict.lookup_assign]
  split <;> rfl

end Cons

/-! ## Inserting a path -/

theorem mem_of_lookup {entries : List (κ × PathTree κ)} (hnodup : (entries.map Prod.fst).Nodup)
    {key : κ} {child : PathTree κ} (h : entries.lookup key = some child) :
    (key, child) ∈ entries := by
  have hget : (Dict.mk entries hnodup).get? key = some child := h
  exact Dict.get?_eq_some_iff.mp hget

theorem kept_insert (tree : PathTree κ) (path place : List κ) :
    (tree.insert path).Kept place ↔ tree.Kept place ∨ path <+: place := by
  induction path generalizing tree place with
  | nil => simp [insert, kept_whole]
  | cons key path ih =>
      cases tree with
      | whole => simp [insert, kept_whole]
      | parts entries =>
          cases place with
          | nil => simp [insert, Kept, reach]
          | cons other place =>
              rw [insert, Kept, reach_assign]
              by_cases hother : other = key
              · subst hother
                rw [if_pos rfl, ← Kept, ih, kept_cons, List.cons_prefix_cons]
                simp
              · rw [if_neg hother, List.cons_prefix_cons, ← Kept]
                simp [Ne.symm hother]

theorem passed_insert (tree : PathTree κ) (path place : List κ) :
    (tree.insert path).Passed place ↔
      ¬ path <+: place ∧ ¬ tree.Kept place ∧ (tree.Passed place ∨ place <+: path) := by
  induction path generalizing tree place with
  | nil => simp [insert, not_passed_whole]
  | cons key path ih =>
      cases tree with
      | whole => simp [insert, not_passed_whole, kept_whole]
      | parts entries =>
          cases place with
          | nil => simp [insert, Kept, Passed, reach]
          | cons other place =>
              rw [insert, Passed]
              simp only [reach_assign]
              by_cases hother : other = key
              · subst hother
                simp only [if_pos]
                rw [← Passed, ih, kept_cons, passed_cons, List.cons_prefix_cons,
                  List.cons_prefix_cons]
                cases hchild : entries.lookup other with
                | none =>
                    simp [passed_nil_iff]
                    rintro - - rfl
                    exact List.nil_prefix
                | some child => simp
              · simp only [if_neg hother]
                rw [← Passed, List.cons_prefix_cons, List.cons_prefix_cons]
                simp only [hother, Ne.symm hother, false_and, not_false_eq_true, or_false, true_and]
                exact ⟨fun h => ⟨not_kept_of_passed h, h⟩, And.right⟩

theorem formed_insert {tree : PathTree κ} (h : tree.Formed) (path : List κ) :
    (tree.insert path).Formed := by
  induction path generalizing tree with
  | nil => exact .whole
  | cons key path ih =>
      cases h with
      | whole => exact .whole
      | parts entries hnodup hformed =>
          apply Formed.parts _ (Dict.nodup_assign hnodup)
          intro entry hentry
          rcases Dict.mem_of_mem_assign hentry with rfl | hentry
          · apply ih
            cases hchild : entries.lookup key with
            | none => exact .parts [] List.nodup_nil (by simp)
            | some child => exact hformed (key, child) (mem_of_lookup hnodup hchild)
          · exact hformed entry hentry

/-! ## A list of paths -/

theorem kept_foldl (tree : PathTree κ) (paths : List (List κ)) (place : List κ) :
    (paths.foldl insert tree).Kept place ↔ tree.Kept place ∨ ∃ path ∈ paths, path <+: place := by
  induction paths generalizing tree with
  | nil => simp
  | cons path paths ih =>
      rw [List.foldl_cons, ih, kept_insert, or_assoc, List.exists_mem_cons_iff]

theorem passed_foldl (tree : PathTree κ) (paths : List (List κ)) (place : List κ) :
    (paths.foldl insert tree).Passed place ↔
      (¬ ∃ path ∈ paths, path <+: place) ∧ ¬ tree.Kept place ∧
        (tree.Passed place ∨ ∃ path ∈ paths, place <+: path) := by
  induction paths generalizing tree with
  | nil =>
      simp only [List.foldl_nil, List.not_mem_nil, false_and, exists_false, not_false_eq_true,
        true_and, or_false]
      exact ⟨fun h => ⟨not_kept_of_passed h, h⟩, And.right⟩
  | cons path paths ih =>
      rw [List.foldl_cons, ih, kept_insert, passed_insert, List.exists_mem_cons_iff,
        List.exists_mem_cons_iff]
      generalize (∃ other ∈ paths, other <+: place) = covered
      generalize (∃ other ∈ paths, place <+: other) = further
      grind

theorem formed_foldl {tree : PathTree κ} (h : tree.Formed) (paths : List (List κ)) :
    (paths.foldl insert tree).Formed := by
  induction paths generalizing tree with
  | nil => exact h
  | cons path paths ih => exact ih (formed_insert h path)

/-- What a path names, or something above it, is kept whole. -/
theorem kept_ofPaths (paths : List (List κ)) (place : List κ) :
    (ofPaths paths).Kept place ↔ ∃ path ∈ paths, path <+: place := by
  rw [ofPaths, kept_foldl]
  simp [not_kept_nil]

/-- What a path leads through, and none names, is on the way. -/
theorem passed_ofPaths (paths : List (List κ)) (place : List κ) :
    (ofPaths paths).Passed place ↔
      (¬ ∃ path ∈ paths, path <+: place) ∧ (place = [] ∨ ∃ path ∈ paths, place <+: path) := by
  rw [ofPaths, passed_foldl, passed_nil_iff]
  simp [not_kept_nil]

theorem formed_ofPaths (paths : List (List κ)) : (ofPaths paths).Formed :=
  formed_foldl (.parts [] List.nodup_nil (by simp)) paths

end PathTree

end SeverinoHQ.Math
