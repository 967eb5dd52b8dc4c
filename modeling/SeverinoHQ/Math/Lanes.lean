/-
# Items laid in lanes

A table of lanes, each as wide as the columns, in which every item takes the first lane free in
all the columns it covers. So an item keeps one lane, and no two items share a place.
-/

import Mathlib.Data.List.Induction
import Mathlib.Data.List.Nodup

namespace SeverinoHQ.Math.Lanes

universe u

variable {τ : Type u}

/-- What a lane holds in a column. -/
def hold (lane : List (Option τ)) (column : Nat) : Option τ := lane[column]?.join

/-- What the table holds at a place. -/
def place (lanes : List (List (Option τ))) (lane column : Nat) : Option τ :=
  hold (lanes[lane]?.getD []) column

/-- A lane with an item put in columns of it. -/
def put (item : τ) (columns : List Nat) (lane : List (Option τ)) : List (Option τ) :=
  columns.foldl (fun lane column => lane.set column (some item)) lane

section Lay

variable (width : Nat) (covers : τ → Nat → Bool)

/-- The columns an item covers. -/
def covered (item : τ) : List Nat := (List.range width).filter (covers item)

/-- The lane is free in all of the columns. -/
def isFree (columns : List Nat) (lane : List (Option τ)) : Bool :=
  columns.all fun column => (hold lane column).isNone

/-- The item laid in the first lane free over its columns, or in a new one. -/
def lay (lanes : List (List (Option τ))) (item : τ) : List (List (Option τ)) :=
  let columns := covered width covers item
  if columns = [] then lanes
  else
    match lanes.findIdx? (isFree columns) with
    | some index => lanes.set index (put item columns (lanes[index]?.getD []))
    | none => lanes ++ [put item columns (List.replicate width none)]

def layAll (items : List τ) : List (List (Option τ)) := items.foldl (lay width covers) []

end Lay

/-! ## Places -/

theorem length_put (item : τ) (columns : List Nat) (lane : List (Option τ)) :
    (put item columns lane).length = lane.length := by
  induction columns generalizing lane with
  | nil => rfl
  | cons column columns ih =>
      rw [put, List.foldl_cons, ← put, ih, List.length_set]

theorem hold_put (item : τ) {columns : List Nat} {lane : List (Option τ)} {column : Nat}
    (hwidth : ∀ column ∈ columns, column < lane.length) :
    hold (put item columns lane) column =
      if column ∈ columns then some item else hold lane column := by
  induction columns generalizing lane with
  | nil => rfl
  | cons first columns ih =>
      have hfirst := hwidth first List.mem_cons_self
      rw [put, List.foldl_cons, ← put, ih (fun column hcolumn => by
        rw [List.length_set]
        exact hwidth column (List.mem_cons_of_mem _ hcolumn))]
      by_cases hmem : column ∈ columns
      · rw [if_pos hmem, if_pos (List.mem_cons_of_mem _ hmem)]
      · by_cases heq : first = column
        · subst heq
          rw [if_neg hmem, if_pos List.mem_cons_self, hold, List.getElem?_set_self hfirst]
          rfl
        · rw [if_neg hmem, if_neg (by simp [hmem, Ne.symm heq]), hold,
            List.getElem?_set_ne heq, hold]

theorem hold_replicate (width column : Nat) :
    hold (List.replicate width (none : Option τ)) column = none := by
  simp only [hold, List.getElem?_replicate]
  split <;> rfl

theorem hold_nil (column : Nat) : hold ([] : List (Option τ)) column = none := rfl

theorem place_set {lanes : List (List (Option τ))} {index : Nat} (hindex : index < lanes.length)
    (new : List (Option τ)) (lane column : Nat) :
    place (lanes.set index new) lane column =
      if lane = index then hold new column else place lanes lane column := by
  by_cases heq : lane = index
  · subst heq
    rw [if_pos rfl, place, List.getElem?_set_self hindex, Option.getD_some]
  · rw [if_neg heq, place, List.getElem?_set_ne (Ne.symm heq), place]

theorem place_append_singleton (lanes : List (List (Option τ))) (new : List (Option τ))
    (lane column : Nat) :
    place (lanes ++ [new]) lane column =
      if lane = lanes.length then hold new column else place lanes lane column := by
  by_cases heq : lane = lanes.length
  · simp [heq, place]
  · rw [if_neg heq, place, place]
    rcases Nat.lt_or_gt_of_ne heq with hlt | hgt
    · rw [List.getElem?_append_left hlt]
    · rw [List.getElem?_eq_none (by simp; omega), List.getElem?_eq_none (by omega)]

theorem place_of_length_le {lanes : List (List (Option τ))} {lane : Nat}
    (h : lanes.length ≤ lane) (column : Nat) : place lanes lane column = none := by
  rw [place, List.getElem?_eq_none h, Option.getD_none, hold_nil]

/-! ## The table while it is filled -/

section Filled

variable {width : Nat} {covers : τ → Nat → Bool}

theorem mem_covered {item : τ} {column : Nat} :
    column ∈ covered width covers item ↔ column < width ∧ covers item column = true := by
  simp [covered]

theorem covered_ne_nil {item : τ} :
    covered width covers item ≠ [] ↔ ∃ column < width, covers item column = true := by
  simp [covered, List.filter_eq_nil_iff]

/-- Each item that covers a column has a lane, two that share a column have two, and the table
holds each item at the columns it covers of its lane, and nothing else. -/
structure Assigned (width : Nat) (covers : τ → Nat → Bool) (items : List τ)
    (holds : Nat → Nat → Option τ) (assigned : List (τ × Nat)) : Prop where
  items_eq : assigned.map Prod.fst = items.filter fun item => covered width covers item ≠ []
  apart : assigned.Pairwise fun first second => ∀ column < width,
    covers first.1 column = true → covers second.1 column = true → first.2 ≠ second.2
  holds_iff : ∀ lane, ∀ column < width, ∀ item,
    holds lane column = some item ↔ (item, lane) ∈ assigned ∧ covers item column = true

/-- What one item more does to the table: it is put in one lane, free before. -/
structure Step (width : Nat) (covers : τ → Nat → Bool) (item : τ)
    (before after : List (List (Option τ))) (index : Nat) : Prop where
  free : ∀ column ∈ covered width covers item, place before index column = none
  place_eq : ∀ lane column, place after lane column =
    if lane = index ∧ column ∈ covered width covers item then some item
    else place before lane column

def Wide (width : Nat) (lanes : List (List (Option τ))) : Prop :=
  ∀ lane ∈ lanes, lane.length = width

theorem lay_of_nil {item : τ} (h : covered width covers item = [])
    (lanes : List (List (Option τ))) : lay width covers lanes item = lanes := if_pos h

theorem lay_step {item : τ} (h : covered width covers item ≠ [])
    {lanes : List (List (Option τ))} (hwide : Wide width lanes) :
    ∃ index, Step width covers item lanes (lay width covers lanes item) index := by
  have hcolumns : ∀ column ∈ covered width covers item, column < width :=
    fun column hcolumn => (mem_covered.mp hcolumn).1
  rw [lay, if_neg h]
  cases hfind : lanes.findIdx? (isFree (covered width covers item)) with
  | none =>
      refine ⟨lanes.length, fun column _ => place_of_length_le (Nat.le_refl _) column, ?_⟩
      intro lane column
      dsimp only
      rw [place_append_singleton]
      by_cases hlane : lane = lanes.length
      · rw [if_pos hlane, hold_put item (fun column hcolumn => by
          rw [List.length_replicate]
          exact hcolumns column hcolumn), hold_replicate, hlane,
          place_of_length_le (Nat.le_refl _)]
        simp
      · simp [hlane]
  | some index =>
      obtain ⟨hindex, hfree, -⟩ := List.findIdx?_eq_some_iff_getElem.mp hfind
      have hlane : lanes[index]?.getD [] = lanes[index] := by
        rw [List.getElem?_eq_getElem hindex, Option.getD_some]
      refine ⟨index, fun column hcolumn => ?_, fun lane column => ?_⟩
      · rw [place, hlane]
        exact Option.isNone_iff_eq_none.mp (List.all_eq_true.mp hfree column hcolumn)
      · dsimp only
        rw [place_set hindex, hlane]
        by_cases heq : lane = index
        · rw [if_pos heq, hold_put item (fun column hcolumn => by
            rw [hwide _ (List.getElem_mem hindex)]
            exact hcolumns column hcolumn)]
          simp [heq, place, hlane]
        · simp [heq]

theorem lay_wide {item : τ} {lanes : List (List (Option τ))} (hwide : Wide width lanes) :
    Wide width (lay width covers lanes item) := by
  rw [lay]
  split
  · exact hwide
  · split
    · next index hfind =>
        obtain ⟨hindex, -⟩ := List.findIdx?_eq_some_iff_getElem.mp hfind
        intro lane hlane
        rcases List.mem_or_eq_of_mem_set hlane with hmem | rfl
        · exact hwide lane hmem
        · rw [length_put, List.getElem?_eq_getElem hindex, Option.getD_some]
          exact hwide _ (List.getElem_mem hindex)
    · intro lane hlane
      rcases List.mem_append.mp hlane with hmem | hnew
      · exact hwide lane hmem
      · rw [List.mem_singleton.mp hnew, length_put, List.length_replicate]

theorem Assigned.step {items : List τ} {item : τ} {before after : List (List (Option τ))}
    {index : Nat} {assigned : List (τ × Nat)}
    (h : Assigned width covers items (place before) assigned)
    (hcovers : covered width covers item ≠ []) (hstep : Step width covers item before after index) :
    Assigned width covers (items ++ [item]) (place after) (assigned ++ [(item, index)]) where
  items_eq := by
    rw [List.map_append, h.items_eq, List.filter_append]
    simp [hcovers]
  apart := by
    rw [List.pairwise_append]
    refine ⟨h.apart, List.pairwise_singleton _ _, fun first hfirst second hsecond => ?_⟩
    rw [List.mem_singleton.mp hsecond]
    intro column hcolumn hfirst' hitem hlane
    -- The first's place was free.
    have hmem : (first.1, index) ∈ assigned := by
      rw [← show first.2 = index from hlane]
      exact hfirst
    have hheld := (h.holds_iff index column hcolumn first.1).mpr ⟨hmem, hfirst'⟩
    rw [hstep.free column (mem_covered.mpr ⟨hcolumn, hitem⟩)] at hheld
    cases hheld
  holds_iff lane column hcolumn other := by
    have hmem : column ∈ covered width covers item ↔ covers item column = true := by
      simp [mem_covered, hcolumn]
    simp only [hstep.place_eq, List.mem_append, List.mem_singleton, Prod.mk.injEq, hmem]
    by_cases hnew : lane = index ∧ covers item column = true
    · -- The place the item takes was free, so it is the item's alone.
      have hfree := hstep.free column (hmem.mpr hnew.2)
      rw [if_pos hnew, Option.some_inj]
      constructor
      · rintro rfl
        exact ⟨.inr ⟨rfl, hnew.1⟩, hnew.2⟩
      · rintro ⟨hold | ⟨rfl, -⟩, hother⟩
        · have hheld := (h.holds_iff lane column hcolumn other).mpr ⟨hold, hother⟩
          rw [hnew.1, hfree] at hheld
          cases hheld
        · rfl
    · rw [if_neg hnew, h.holds_iff lane column hcolumn other]
      constructor
      · rintro ⟨hold, hother⟩
        exact ⟨.inl hold, hother⟩
      · rintro ⟨hold | ⟨rfl, rfl⟩, hother⟩
        · exact ⟨hold, hother⟩
        · exact absurd ⟨rfl, hother⟩ hnew

/-- The whole table is laid. -/
theorem layAll_assigned (width : Nat) (covers : τ → Nat → Bool) (items : List τ) :
    Wide width (layAll width covers items) ∧
      ∃ assigned, Assigned width covers items (place (layAll width covers items)) assigned := by
  induction items using List.reverseRecOn with
  | nil =>
      refine ⟨by simp [layAll, Wide], [], by simp, by simp, fun lane column _ item => ?_⟩
      simp [layAll, place_of_length_le]
  | append_singleton items item ih =>
      obtain ⟨hwide, assigned, hassigned⟩ := ih
      have hlast : layAll width covers (items ++ [item]) =
          lay width covers (layAll width covers items) item := List.foldl_concat ..
      rw [hlast]
      refine ⟨lay_wide hwide, ?_⟩
      by_cases hnone : covered width covers item = []
      · rw [lay_of_nil hnone]
        refine ⟨assigned, ⟨?_, hassigned.apart, hassigned.holds_iff⟩⟩
        rw [hassigned.items_eq, List.filter_append]
        simp [hnone]
      · obtain ⟨index, hstep⟩ := lay_step hnone hwide
        exact ⟨_, hassigned.step hnone hstep⟩

/-- What a column holds, from the first lane down. -/
def column (lanes : List (List (Option τ))) (index : Nat) : List τ :=
  lanes.filterMap fun lane => hold lane index

theorem length_column (lanes : List (List (Option τ))) (index : Nat) :
    (column lanes index).length = (lanes.filter fun lane => (hold lane index).isSome).length := by
  rw [column, List.length_filterMap_eq_countP, List.countP_eq_length_filter]

theorem column_take_append_drop (lanes : List (List (Option τ))) (count index : Nat) :
    column (lanes.take count) index ++ column (lanes.drop count) index = column lanes index := by
  rw [column, column, ← List.filterMap_append, List.take_append_drop, column]

theorem column_eq (lanes : List (List (Option τ))) (index : Nat) :
    column lanes index =
      (List.range lanes.length).filterMap fun lane => place lanes lane index := by
  induction lanes using List.reverseRecOn with
  | nil => rfl
  | append_singleton lanes lane ih =>
      have hearlier : ∀ other ∈ List.range lanes.length,
          place (lanes ++ [lane]) other index = place lanes other index := by
        intro other hother
        rw [place_append_singleton, if_neg (Nat.ne_of_lt (List.mem_range.mp hother))]
      rw [column, List.filterMap_append, ← column, ih, List.length_append, List.length_singleton,
        List.range_succ, List.filterMap_append, List.filterMap_congr hearlier]
      simp only [List.filterMap_cons, List.filterMap_nil, place_append_singleton, if_true]

/-- A column holds the items that cover it, each once. -/
theorem Assigned.column_perm {items : List τ} {lanes : List (List (Option τ))}
    {assigned : List (τ × Nat)} (h : Assigned width covers items (place lanes) assigned)
    {index : Nat} (hindex : index < width) :
    (column lanes index).Perm (items.filter fun item => covers item index) := by
  -- Both are the items of one set of pairs of an item and its lane.
  have hheld : ((List.range lanes.length).filterMap fun lane =>
      (place lanes lane index).map fun item => (item, lane)).Perm
        (assigned.filter fun pair => covers pair.1 index) := by
    apply (List.perm_ext_iff_of_nodup ?_ ?_).mpr
    · intro pair
      obtain ⟨item, lane⟩ := pair
      simp only [List.mem_filterMap, List.mem_range, Option.map_eq_some_iff, Prod.mk.injEq,
        List.mem_filter]
      rw [← h.holds_iff lane index hindex item]
      constructor
      · rintro ⟨other, -, found, hplace, rfl, rfl⟩
        exact hplace
      · intro hplace
        refine ⟨lane, ?_, item, hplace, rfl, rfl⟩
        by_contra hlane
        rw [place_of_length_le (Nat.le_of_not_lt hlane)] at hplace
        cases hplace
    · apply List.Nodup.of_map Prod.snd
      rw [List.map_filterMap]
      apply List.Nodup.filterMap _ List.nodup_range
      intro first second lane hfirst hsecond
      simp only [Option.map_map, Option.mem_def, Option.map_eq_some_iff, Function.comp_apply] at *
      obtain ⟨-, -, rfl⟩ := hfirst
      obtain ⟨-, -, hlane⟩ := hsecond
      exact hlane.symm
    · rw [List.Nodup, List.pairwise_filter]
      apply h.apart.imp
      rintro first second hapart hfirst hsecond rfl
      exact hapart index hindex hfirst hsecond rfl
  have hplaces : (fun lane => (((place lanes lane index).map fun item => (item, lane)).map
      Prod.fst)) = fun lane => place lanes lane index := by
    funext lane
    cases place lanes lane index <;> rfl
  have hitems := hheld.map Prod.fst
  rw [List.map_filterMap, hplaces, ← column_eq] at hitems
  have hcover : (assigned.filter fun pair => covers pair.1 index).map Prod.fst =
      (assigned.map Prod.fst).filter fun item => covers item index := by
    rw [List.filter_map]
    rfl
  rw [hcover, h.items_eq, List.filter_filter] at hitems
  refine hitems.trans (List.Perm.of_eq (List.filter_congr fun item _ => ?_))
  by_cases hitem : covers item index = true
  · simp [hitem, List.ne_nil_of_mem (mem_covered.mpr ⟨hindex, hitem⟩)]
  · simp [hitem]

end Filled

end SeverinoHQ.Math.Lanes
