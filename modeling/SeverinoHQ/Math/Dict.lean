/-
# Dictionaries

A dictionary holds one value under a key, in the order the keys were first given. An
assignment replaces a value where it stands, or puts a new one after the others.
-/

import Mathlib.Data.List.Nodup

namespace SeverinoHQ.Math

universe u v

/-- The items of a dictionary, one for a key. -/
structure Dict (κ : Type u) (ν : Type v) where
  items : List (κ × ν)
  nodup : (items.map Prod.fst).Nodup

namespace Dict

variable {κ : Type u} {ν : Type v}

/-- The keys, as they were first given. -/
def keys (dict : Dict κ ν) : List κ := dict.items.map Prod.fst

/-- `{}`. -/
def empty : Dict κ ν := ⟨[], List.nodup_nil⟩

section Items

variable [DecidableEq κ]

/-- The items, with a value under a key. -/
def assign (key : κ) (value : ν) : List (κ × ν) → List (κ × ν)
  | [] => [(key, value)]
  | item :: items => if item.1 = key then (key, value) :: items else item :: assign key value items

theorem map_fst_assign (key : κ) (value : ν) (items : List (κ × ν)) :
    (assign key value items).map Prod.fst =
      if key ∈ items.map Prod.fst then items.map Prod.fst else items.map Prod.fst ++ [key] := by
  induction items with
  | nil => simp [assign]
  | cons item items ih =>
      by_cases hitem : item.1 = key
      · simp [assign, hitem]
      · rw [assign, if_neg hitem, List.map_cons, List.map_cons, ih]
        by_cases hmem : key ∈ items.map Prod.fst
        · rw [if_pos hmem, if_pos (List.mem_cons_of_mem _ hmem)]
        · rw [if_neg hmem, if_neg (by simpa [Ne.symm hitem] using hmem), List.cons_append]

theorem nodup_assign {key : κ} {value : ν} {items : List (κ × ν)}
    (hnodup : (items.map Prod.fst).Nodup) : ((assign key value items).map Prod.fst).Nodup := by
  rw [map_fst_assign]
  split
  · exact hnodup
  · next hmem => exact List.concat_eq_append ▸ hnodup.concat hmem

theorem lookup_cons_of_ne {key other : κ} (value : ν) (items : List (κ × ν)) (h : other ≠ key) :
    ((key, value) :: items).lookup other = items.lookup other := by
  have hbeq : (other == key) = false := by simpa using h
  simp [List.lookup_cons, hbeq]

theorem lookup_eq_none_iff_not_mem {key : κ} {items : List (κ × ν)} :
    items.lookup key = none ↔ key ∉ items.map Prod.fst := by
  simp only [List.lookup_eq_none_iff, List.mem_map, not_exists, not_and, bne_iff_ne]
  constructor
  · intro h item hitem heq
    exact h item hitem heq.symm
  · intro h item hitem heq
    exact h item hitem heq.symm

theorem lookup_assign (key other : κ) (value : ν) (items : List (κ × ν)) :
    (assign key value items).lookup other =
      if other = key then some value else items.lookup other := by
  induction items with
  | nil =>
      by_cases hother : other = key
      · simp [assign, hother]
      · rw [assign, lookup_cons_of_ne value [] hother, if_neg hother]
  | cons item items ih =>
      obtain ⟨first, held⟩ := item
      by_cases hfirst : first = key
      · subst hfirst
        by_cases hother : other = first
        · simp [assign, hother]
        · rw [assign, if_pos rfl, lookup_cons_of_ne value items hother, if_neg hother,
            lookup_cons_of_ne held items hother]
      · rw [assign, if_neg hfirst]
        by_cases hother : other = first
        · simp [hother, hfirst]
        · rw [lookup_cons_of_ne held _ hother, lookup_cons_of_ne held _ hother, ih]

/-- A value a key has already changes nothing. -/
theorem assign_of_lookup {key : κ} {value : ν} {items : List (κ × ν)}
    (h : items.lookup key = some value) : assign key value items = items := by
  induction items with
  | nil => exact nomatch h
  | cons item items ih =>
      obtain ⟨first, held⟩ := item
      rw [assign]
      by_cases hfirst : first = key
      · subst hfirst
        rw [List.lookup_cons_self, Option.some.injEq] at h
        rw [if_pos rfl, h]
      · rw [lookup_cons_of_ne held items (Ne.symm hfirst)] at h
        rw [if_neg hfirst, ih h]

/-- The items of a dictionary that is given these, one after the other. -/
def collect (given : List (κ × ν)) : List (κ × ν) :=
  given.foldl (fun items item => assign item.1 item.2 items) []

/-- The last value given a key is the one it has. -/
theorem lookup_collect (given : List (κ × ν)) (key : κ) :
    (collect given).lookup key = given.reverse.lookup key := by
  have hfold : ∀ items : List (κ × ν),
      (given.foldl (fun items item => assign item.1 item.2 items) items).lookup key =
        (given.reverse.lookup key).or (items.lookup key) := by
    induction given with
    | nil => simp
    | cons item given ih =>
        intro items
        rw [List.foldl_cons, ih, lookup_assign, List.reverse_cons, List.lookup_append, Option.or_assoc]
        congr 1
        by_cases hkey : key = item.1
        · rw [if_pos hkey, hkey, List.lookup_cons_self, Option.some_or]
        · rw [if_neg hkey, lookup_cons_of_ne item.2 [] hkey, List.lookup_nil, Option.none_or]
  rw [collect, hfold, List.lookup_nil, Option.or_none]

/-- A dictionary that is given something is not empty. -/
theorem collect_eq_nil {given : List (κ × ν)} : collect given = [] ↔ given = [] := by
  have hassign : ∀ (item : κ × ν) (items : List (κ × ν)), assign item.1 item.2 items ≠ [] := by
    intro item items
    cases items with
    | nil => exact List.cons_ne_nil _ _
    | cons first items =>
        rw [assign]
        split <;> exact List.cons_ne_nil _ _
  have hkept : ∀ (given items : List (κ × ν)), items ≠ [] →
      given.foldl (fun items item => assign item.1 item.2 items) items ≠ [] := by
    intro given
    induction given with
    | nil => exact fun items hitems => hitems
    | cons item given ih => exact fun items _ => ih _ (hassign item items)
  cases given with
  | nil => simp [collect]
  | cons item given =>
      have hne := hkept given _ (hassign item [])
      simpa [collect] using hne

theorem assign_of_not_mem {key : κ} {value : ν} {items : List (κ × ν)}
    (h : key ∉ items.map Prod.fst) : assign key value items = items ++ [(key, value)] := by
  induction items with
  | nil => rfl
  | cons item items ih =>
      rw [List.map_cons, List.mem_cons, not_or] at h
      rw [assign, if_neg (Ne.symm h.1), ih h.2, List.cons_append]

theorem length_assign_of_mem {key : κ} {value : ν} {items : List (κ × ν)}
    (h : key ∈ items.map Prod.fst) : (assign key value items).length = items.length := by
  have hkeys := congrArg List.length (map_fst_assign key value items)
  simpa [h] using hkeys

theorem foldl_assign (given items : List (κ × ν))
    (hnodup : ((items ++ given).map Prod.fst).Nodup) :
    given.foldl (fun items item => assign item.1 item.2 items) items = items ++ given := by
  induction given generalizing items with
  | nil => simp
  | cons item given ih =>
      have hfresh : item.1 ∉ items.map Prod.fst := by
        rw [List.map_append, List.nodup_append] at hnodup
        exact fun hmem => hnodup.2.2 item.1 hmem item.1 (by simp) rfl
      rw [List.foldl_cons, assign_of_not_mem hfresh, ih _ (by simpa using hnodup)]
      simp

theorem length_foldl_assign_le (given items : List (κ × ν)) :
    (given.foldl (fun items item => assign item.1 item.2 items) items).length ≤
      items.length + given.length := by
  induction given generalizing items with
  | nil => simp
  | cons item given ih =>
      have hlength : (assign item.1 item.2 items).length ≤ items.length + 1 := by
        by_cases hmem : item.1 ∈ items.map Prod.fst
        · rw [length_assign_of_mem hmem]
          omega
        · simp [assign_of_not_mem hmem]
      have hrest := ih (assign item.1 item.2 items)
      rw [List.foldl_cons, List.length_cons]
      omega

theorem nodup_of_length_foldl_assign (given items : List (κ × ν))
    (hitems : (items.map Prod.fst).Nodup)
    (hlength : (given.foldl (fun items item => assign item.1 item.2 items) items).length =
      items.length + given.length) : ((items ++ given).map Prod.fst).Nodup := by
  induction given generalizing items with
  | nil => simpa using hitems
  | cons item given ih =>
      rw [List.foldl_cons, List.length_cons] at hlength
      by_cases hmem : item.1 ∈ items.map Prod.fst
      · have hle := length_foldl_assign_le given (assign item.1 item.2 items)
        rw [length_assign_of_mem hmem] at hle
        omega
      · rw [assign_of_not_mem hmem] at hlength
        have hnext := ih (items ++ [item]) (assign_of_not_mem hmem ▸ nodup_assign hitems)
          (by rw [hlength, List.length_append, List.length_singleton]; omega)
        simpa using hnext

/-- Each of them is kept where no two are under one key. -/
theorem collect_of_nodup {given : List (κ × ν)} (h : (given.map Prod.fst).Nodup) :
    collect given = given := foldl_assign given [] h

/-- As many are kept as are given only where no two are under one key. -/
theorem length_collect {given : List (κ × ν)} :
    (collect given).length = given.length ↔ (given.map Prod.fst).Nodup := by
  constructor
  · intro hlength
    exact nodup_of_length_foldl_assign given [] List.nodup_nil (by simpa [collect] using hlength)
  · intro hnodup
    rw [collect_of_nodup hnodup]

theorem mem_of_mem_assign {key : κ} {value : ν} {items : List (κ × ν)} {item : κ × ν}
    (h : item ∈ assign key value items) : item = (key, value) ∨ item ∈ items := by
  induction items with
  | nil => exact Or.inl (List.mem_singleton.mp h)
  | cons first items ih =>
      rw [assign] at h
      split at h
      · rcases List.mem_cons.mp h with rfl | hmem
        · exact Or.inl rfl
        · exact Or.inr (List.mem_cons_of_mem first hmem)
      · rcases List.mem_cons.mp h with rfl | hmem
        · exact Or.inr List.mem_cons_self
        · exact (ih hmem).imp id (List.mem_cons_of_mem first)

/-- What is kept was given, and no two of it are under one key. -/
theorem collect_spec (given : List (κ × ν)) :
    (∀ item ∈ collect given, item ∈ given) ∧ ((collect given).map Prod.fst).Nodup := by
  suffices hfold : ∀ items : List (κ × ν), (items.map Prod.fst).Nodup →
      (∀ item ∈ given.foldl (fun items item => assign item.1 item.2 items) items,
        item ∈ items ∨ item ∈ given) ∧
      ((given.foldl (fun items item => assign item.1 item.2 items) items).map Prod.fst).Nodup by
    simpa [collect] using hfold [] List.nodup_nil
  induction given with
  | nil => exact fun items hitems => ⟨fun item hmem => Or.inl hmem, hitems⟩
  | cons first given ih =>
      intro items hitems
      obtain ⟨hmem, hnodup⟩ := ih (assign first.1 first.2 items) (nodup_assign hitems)
      refine ⟨fun item hitem => ?_, hnodup⟩
      rcases hmem item hitem with hassigned | hgiven
      · rcases mem_of_mem_assign hassigned with rfl | hold
        · exact Or.inr List.mem_cons_self
        · exact Or.inl hold
      · exact Or.inr (List.mem_cons_of_mem first hgiven)

/-- Items told apart by their keys, looked up among those a condition keeps. -/
theorem lookup_filter {items : List (κ × ν)} (hnodup : (items.map Prod.fst).Nodup)
    (keeps : κ × ν → Bool) (key : κ) :
    (items.filter keeps).lookup key = (items.lookup key).filter fun value => keeps (key, value) := by
  induction items with
  | nil => rfl
  | cons item items ih =>
      obtain ⟨first, value⟩ := item
      rw [List.map_cons, List.nodup_cons] at hnodup
      have hrest := ih hnodup.2
      by_cases hkey : key = first
      · subst hkey
        have hnone : items.lookup key = none := by
          rw [List.lookup_eq_none_iff]
          intro other hother
          have hne : key ≠ other.1 := fun heq =>
            hnodup.1 (List.mem_map.mpr ⟨other, hother, heq.symm⟩)
          simpa using hne
        by_cases hkeeps : keeps (key, value) = true
        · simp [List.filter_cons_of_pos hkeeps, Option.filter, hkeeps]
        · rw [List.filter_cons_of_neg hkeeps, hrest, hnone]
          simp [Option.filter, hkeeps]
      · rw [lookup_cons_of_ne value items hkey, ← hrest]
        by_cases hkeeps : keeps (first, value) = true
        · rw [List.filter_cons_of_pos hkeeps, lookup_cons_of_ne value _ hkey]
        · rw [List.filter_cons_of_neg hkeeps]

/-- Items looked up among those whose keys a condition keeps. -/
theorem lookup_filter_key (keeps : κ → Bool) (key : κ) (items : List (κ × ν)) :
    (items.filter fun item => keeps item.1).lookup key =
      if keeps key = true then items.lookup key else none := by
  induction items with
  | nil => simp
  | cons item items ih =>
      obtain ⟨first, value⟩ := item
      rw [List.filter_cons]
      by_cases hfirst : keeps first = true
      · rw [if_pos hfirst]
        by_cases hkey : key = first
        · subst hkey
          rw [List.lookup_cons_self, List.lookup_cons_self, if_pos hfirst]
        · rw [lookup_cons_of_ne value _ hkey, lookup_cons_of_ne value _ hkey, ih]
      · rw [if_neg hfirst, ih]
        by_cases hkey : key = first
        · subst hkey
          rw [if_neg hfirst, if_neg hfirst]
        · rw [lookup_cons_of_ne value _ hkey]

end Items

variable [DecidableEq κ]

/-- `dict.get(key)`. -/
def get? (dict : Dict κ ν) (key : κ) : Option ν := dict.items.lookup key

/-- `dict[key] = value`. -/
def set (dict : Dict κ ν) (key : κ) (value : ν) : Dict κ ν where
  items := assign key value dict.items
  nodup := nodup_assign dict.nodup

/-- The dictionary of the items a condition keeps. -/
def keep (dict : Dict κ ν) (keeps : κ × ν → Bool) : Dict κ ν where
  items := dict.items.filter keeps
  nodup := dict.nodup.sublist (List.filter_sublist.map Prod.fst)

@[simp]
theorem get?_empty (key : κ) : (empty : Dict κ ν).get? key = none := rfl

@[simp]
theorem get?_set (dict : Dict κ ν) (key other : κ) (value : ν) :
    (dict.set key value).get? other = if other = key then some value else dict.get? other :=
  lookup_assign key other value dict.items

@[simp]
theorem get?_keep (dict : Dict κ ν) (keeps : κ × ν → Bool) (key : κ) :
    (dict.keep keeps).get? key = (dict.get? key).filter fun value => keeps (key, value) :=
  lookup_filter dict.nodup keeps key

theorem get?_eq_some_iff {dict : Dict κ ν} {key : κ} {value : ν} :
    dict.get? key = some value ↔ (key, value) ∈ dict.items := by
  obtain ⟨items, hnodup⟩ := dict
  dsimp only [get?]
  induction items with
  | nil => simp
  | cons item items ih =>
      obtain ⟨first, held⟩ := item
      rw [List.map_cons, List.nodup_cons] at hnodup
      have hrest := ih hnodup.2
      by_cases hfirst : key = first
      · subst hfirst
        have hfresh : (key, value) ∉ items := fun hmem =>
          hnodup.1 (List.mem_map.mpr ⟨(key, value), hmem, rfl⟩)
        simp [hfresh, eq_comm]
      · rw [lookup_cons_of_ne held items hfirst, hrest]
        simp [hfirst]

theorem mem_keys_iff {dict : Dict κ ν} {key : κ} : key ∈ dict.keys ↔ (dict.get? key).isSome := by
  rw [Option.isSome_iff_exists]
  simp [keys, get?_eq_some_iff]

end Dict

end SeverinoHQ.Math
