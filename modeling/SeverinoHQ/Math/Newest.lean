/-
# The newest of each kind

Of rows in order, newest first, those with fewer than so many newer ones of their kind. The cut
leaves the newest that many of any kinds together, and every kind there is.
-/

import Mathlib.Data.List.Basic

namespace SeverinoHQ.Math.Newest

universe u v w

variable {α : Type u} {κ : Type v} [DecidableEq κ] (kind : α → κ) (limit : Nat)

/-- The rows kept, of those after some newer ones. -/
def newestAfter (newer : List α) : List α → List α
  | [] => []
  | row :: rows =>
      if newer.countP (fun other => kind other = kind row) < limit then
        row :: newestAfter (row :: newer) rows
      else newestAfter (row :: newer) rows

/-- The newest of each kind. -/
def newest (rows : List α) : List α := newestAfter kind limit [] rows

variable {kind limit}

theorem newestAfter_sublist (newer rows : List α) : (newestAfter kind limit newer rows).Sublist rows := by
  induction rows generalizing newer with
  | nil => exact List.Sublist.refl []
  | cons row rows ih =>
      rw [newestAfter]
      split
      · exact (ih _).cons_cons row
      · exact (ih _).cons row

variable (kind limit) in
theorem newest_sublist (rows : List α) : (newest kind limit rows).Sublist rows :=
  newestAfter_sublist [] rows

variable (kind limit) in
/-- The newest row is kept. -/
theorem newest_cons (hlimit : 0 < limit) (row : α) (rows : List α) :
    ∃ rest, newest kind limit (row :: rows) = row :: rest := by
  refine ⟨newestAfter kind limit [row] rows, ?_⟩
  rw [newest, newestAfter, if_pos (by simpa using hlimit)]

/-- The rows of some kinds are cut as they are alone. -/
theorem filter_newestAfter {keeps : α → Bool}
    (hkeeps : ∀ first second, kind first = kind second → keeps first = keeps second)
    (newer rows : List α) :
    (newestAfter kind limit newer rows).filter keeps =
      newestAfter kind limit (newer.filter keeps) (rows.filter keeps) := by
  induction rows generalizing newer with
  | nil => rfl
  | cons row rows ih =>
      rw [newestAfter]
      by_cases hrow : keeps row = true
      · have hcount : (newer.filter keeps).countP (fun other => kind other = kind row) =
            newer.countP fun other => kind other = kind row := by
          rw [List.countP_filter]
          apply List.countP_congr
          intro other _
          constructor
          · intro h
            exact (Bool.and_eq_true_iff.mp h).1
          · intro h
            rw [Bool.and_eq_true_iff]
            exact ⟨h, (hkeeps other row (of_decide_eq_true h)).trans hrow⟩
        rw [List.filter_cons_of_pos hrow, newestAfter, hcount]
        split
        · rw [List.filter_cons_of_pos hrow, ih, List.filter_cons_of_pos hrow]
        · rw [ih, List.filter_cons_of_pos hrow]
      · rw [List.filter_cons_of_neg hrow]
        split
        · rw [List.filter_cons_of_neg hrow, ih, List.filter_cons_of_neg hrow]
        · rw [ih, List.filter_cons_of_neg hrow]

theorem filter_newest {keeps : α → Bool}
    (hkeeps : ∀ first second, kind first = kind second → keeps first = keeps second)
    (rows : List α) :
    (newest kind limit rows).filter keeps = newest kind limit (rows.filter keeps) :=
  filter_newestAfter hkeeps [] rows

theorem newestAfter_eq_filter (newer rows : List α) :
    newestAfter kind limit newer rows =
      (rows.zipIdx.filter fun entry =>
        newer.countP (fun other => kind other = kind entry.1) +
          (rows.take entry.2).countP (fun other => kind other = kind entry.1) < limit).map
        Prod.fst := by
  induction rows generalizing newer with
  | nil => rfl
  | cons row rows ih =>
      have hrest : ((rows.zipIdx 1).filter fun entry =>
          newer.countP (fun other => kind other = kind entry.1) +
            ((row :: rows).take entry.2).countP (fun other => kind other = kind entry.1) <
              limit).map Prod.fst = newestAfter kind limit (row :: newer) rows := by
        rw [ih, List.zipIdx_succ, List.filter_map, List.map_map]
        congr 1
        apply List.filter_congr
        intro entry _
        simp only [Function.comp, List.take_succ_cons, List.countP_cons]
        rw [Nat.add_right_comm, Nat.add_assoc]
      rw [newestAfter, List.zipIdx_cons, List.filter_cons]
      simp only [List.take_zero, List.countP_nil, Nat.add_zero, Nat.zero_add]
      by_cases hroom : newer.countP (fun other => kind other = kind row) < limit
      · simp only [hroom, decide_true, if_true, List.map_cons, hrest]
      · simp only [hroom, decide_false, Bool.false_eq_true, if_false, hrest]

variable (kind limit) in
/-- The rows kept are those with fewer than so many of their kind before them. -/
theorem newest_eq_filter (rows : List α) :
    newest kind limit rows =
      (rows.zipIdx.filter fun entry =>
        (rows.take entry.2).countP (fun other => kind other = kind entry.1) < limit).map
        Prod.fst := by
  rw [newest, newestAfter_eq_filter]
  simp only [List.countP_nil, Nat.zero_add]

theorem take_newestAfter (newer rows : List α) :
    (newestAfter kind limit newer rows).take (limit - newer.length) =
      rows.take (limit - newer.length) := by
  induction rows generalizing newer with
  | nil => rfl
  | cons row rows ih =>
      have hrest := ih (row :: newer)
      rw [List.length_cons] at hrest
      rw [newestAfter]
      by_cases hroom : newer.length < limit
      · have hcount : newer.countP (fun other => kind other = kind row) < limit :=
          Nat.lt_of_le_of_lt List.countP_le_length hroom
        have hsucc : limit - newer.length = limit - (newer.length + 1) + 1 := by omega
        rw [if_pos hcount, hsucc, List.take_succ_cons, List.take_succ_cons, hrest]
      · rw [show limit - newer.length = 0 by omega, List.take_zero, List.take_zero]

variable (kind limit) in
/-- The newest of all are the newest of those kept. -/
theorem take_newest (rows : List α) : (newest kind limit rows).take limit = rows.take limit :=
  take_newestAfter [] rows

theorem foldl_newestAfter {β : Type w} {turn : β → α → β} (seen : β → κ → Prop)
    (hturn : ∀ state row, seen (turn state row) (kind row))
    (hkept : ∀ state row key, seen state key → seen (turn state row) key)
    (hagain : ∀ state row, seen state (kind row) → turn state row = state) (hlimit : 0 < limit)
    {newer : List α} {state : β} (hnewer : ∀ row ∈ newer, seen state (kind row)) (rows : List α) :
    (newestAfter kind limit newer rows).foldl turn state = rows.foldl turn state := by
  induction rows generalizing newer state with
  | nil => rfl
  | cons row rows ih =>
      have hnext : ∀ other ∈ row :: newer, seen (turn state row) (kind other) := by
        intro other hother
        rcases List.mem_cons.mp hother with rfl | hmem
        · exact hturn state other
        · exact hkept state row _ (hnewer other hmem)
      rw [newestAfter]
      split
      · exact ih hnext
      · next hmany =>
          -- One of its kind is among the newer.
          have hpos : 0 < newer.countP fun other => kind other = kind row := by omega
          obtain ⟨other, hother, hkind⟩ := List.countP_pos_iff.mp hpos
          have hseen : seen state (kind row) := of_decide_eq_true hkind ▸ hnewer other hother
          rw [List.foldl_cons, ← ih hnext, hagain state row hseen]

/-- A fold that a kind already seen does not change makes the same of the rows kept. -/
theorem foldl_newest {β : Type w} {turn : β → α → β} (seen : β → κ → Prop)
    (hturn : ∀ state row, seen (turn state row) (kind row))
    (hkept : ∀ state row key, seen state key → seen (turn state row) key)
    (hagain : ∀ state row, seen state (kind row) → turn state row = state) (hlimit : 0 < limit)
    (state : β) (rows : List α) :
    (newest kind limit rows).foldl turn state = rows.foldl turn state :=
  foldl_newestAfter seen hturn hkept hagain hlimit (by simp) rows

end SeverinoHQ.Math.Newest
