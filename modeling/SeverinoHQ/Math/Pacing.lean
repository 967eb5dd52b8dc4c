/-
# A lock held in stretches

What one party has held a lock for, newest first. A turn is a stretch of some length with the
lock free, and holding is paced when every hold is asked for within a limit of the last turn, or
comes after a turn. Then a waiter that tries again sooner than a turn lasts finds the lock free
within the limit, the longest hold and a turn.
-/

import Mathlib.Algebra.Order.Field.Basic
import Mathlib.Data.List.Basic
import Mathlib.Tactic.Linarith

namespace SeverinoHQ.Math.Pacing

universe u

/-- One hold: when the lock was asked for, taken and released. -/
structure Hold (α : Type u) where
  asked : α
  taken : α
  released : α
  deriving DecidableEq, Repr

variable {α : Type u} [Field α] [LinearOrder α]

section Holding

variable (start turn limit : α)

/-- Since when the lock is free. It was for a turn at the start. -/
def freed : List (Hold α) → α
  | [] => start - turn
  | hold :: _ => hold.released

/-- The end of the last turn. -/
def lastTurn : List (Hold α) → α
  | [] => start
  | hold :: earlier =>
      if turn ≤ hold.taken - freed start turn earlier then hold.taken else lastTurn earlier

/-- Holds follow each other, and one that is not taken when asked for comes after a turn. -/
def Ordered : List (Hold α) → Prop
  | [] => True
  | hold :: earlier =>
      start ≤ hold.asked ∧ freed start turn earlier ≤ hold.asked ∧ hold.asked ≤ hold.taken ∧
        hold.taken ≤ hold.released ∧
        (hold.asked < hold.taken → turn ≤ hold.taken - freed start turn earlier) ∧ Ordered earlier

/-- Each hold comes after a turn, or is asked for within the limit of the last. -/
def Paced : List (Hold α) → Prop
  | [] => True
  | hold :: earlier =>
      (turn ≤ hold.taken - freed start turn earlier ∨
        hold.asked - lastTurn start turn earlier < limit) ∧ Paced earlier

/-- The lock is free at a time. -/
def FreeAt (holds : List (Hold α)) (time : α) : Prop :=
  ∀ hold ∈ holds, time < hold.taken ∨ hold.released ≤ time

end Holding

section Waiting

variable {start turn limit waits longest : α} {holds : List (Hold α)}

theorem Ordered.spans (h : Ordered start turn holds) :
    ∀ hold ∈ holds, hold.asked ≤ hold.taken ∧ hold.taken ≤ hold.released := by
  induction holds with
  | nil => simp
  | cons newest earlier ih =>
      obtain ⟨-, -, hasked, htaken, -, hearlier⟩ := h
      intro hold hhold
      rcases List.mem_cons.mp hhold with rfl | hmem
      · exact ⟨hasked, htaken⟩
      · exact ih hearlier hold hmem

theorem Ordered.of_append {newer older : List (Hold α)}
    (h : Ordered start turn (newer ++ older)) : Ordered start turn older := by
  induction newer with
  | nil => exact h
  | cons newest newer ih => exact ih h.2.2.2.2.2

variable [IsStrictOrderedRing α]

theorem Ordered.released_le_freed (h : Ordered start turn holds) :
    ∀ hold ∈ holds, hold.released ≤ freed start turn holds := by
  induction holds with
  | nil => simp
  | cons newest earlier ih =>
      obtain ⟨-, hfreed, hasked, htaken, -, hearlier⟩ := h
      intro hold hhold
      rcases List.mem_cons.mp hhold with rfl | hmem
      · exact le_refl _
      · have hle := ih hearlier hold hmem
        show hold.released ≤ newest.released
        linarith

/-- A turn later than some time lies between two holds. -/
theorem Ordered.cut_of_turn (h : Ordered start turn holds) (hstart : start ≤ waits)
    (hturn : waits < lastTurn start turn holds) :
    ∃ newer older, holds = newer ++ older ∧ newer ≠ [] ∧
      (∀ hold ∈ newer, lastTurn start turn holds ≤ hold.taken ∧
        freed start turn older ≤ hold.asked) ∧
      freed start turn older + turn ≤ lastTurn start turn holds := by
  induction holds with
  | nil => exact absurd (lt_of_le_of_lt hstart hturn) (lt_irrefl _)
  | cons newest earlier ih =>
      obtain ⟨-, hfreed, hasked, -, -, hearlier⟩ := h
      by_cases hlong : turn ≤ newest.taken - freed start turn earlier
      · rw [lastTurn, if_pos hlong]
        refine ⟨[newest], earlier, rfl, by simp, ?_, by linarith⟩
        intro hold hhold
        rw [List.mem_singleton.mp hhold]
        exact ⟨le_refl _, hfreed⟩
      · rw [lastTurn, if_neg hlong] at hturn ⊢
        obtain ⟨newer, older, rfl, hne, hnewer, hcut⟩ := ih hearlier hturn
        refine ⟨newest :: newer, older, rfl, by simp, ?_, hcut⟩
        intro hold hhold
        rcases List.mem_cons.mp hhold with rfl | hmem
        · obtain ⟨next, hnext⟩ := List.exists_mem_of_ne_nil newer hne
          obtain ⟨hlast, holder⟩ := hnewer next hnext
          have hreleased := hearlier.released_le_freed next (List.mem_append_left older hnext)
          have hspan := hearlier.spans next (List.mem_append_left older hnext)
          constructor <;> linarith
        · exact hnewer hold hmem

/-- With no turn since the waiter came, a hold asked for within the limit is over within the
limit and the longest hold. -/
theorem Ordered.released_le {newest : Hold α} {earlier : List (Hold α)}
    (h : Ordered start turn (newest :: earlier))
    (hlongest : newest.released - newest.taken ≤ longest)
    (hasked : newest.asked < waits + limit) (hlimit : 0 ≤ limit)
    (hturn : lastTurn start turn (newest :: earlier) ≤ waits) :
    newest.released ≤ waits + limit + longest := by
  obtain ⟨-, hfreed, hle, -, hlate, -⟩ := h
  rcases lt_or_eq_of_le hle with hlt | heq
  · -- It waited, so it came after a turn: the last.
    rw [lastTurn, if_pos (hlate hlt)] at hturn
    linarith
  · linarith

/-- Between the holds there is a turn that ends after the waiter came, and starts within the
limit and the longest hold of it. -/
theorem exists_turn (hordered : Ordered start turn holds) (hpaced : Paced start turn limit holds)
    (hlongest : ∀ hold ∈ holds, hold.released - hold.taken ≤ longest) (hnonneg : 0 ≤ longest)
    (hstart : start ≤ waits) (hlimit : 0 < limit) (hturn : 0 ≤ turn) {horizon : α}
    (hfreed : freed start turn holds ≤ horizon) (hafter : waits + limit ≤ horizon)
    (hnear : (∀ newest ∈ holds.head?, newest.asked < waits + limit) →
      freed start turn holds + turn ≤ horizon ∨ waits < lastTurn start turn holds) :
    ∃ newer older stop, holds = newer ++ older ∧ (∀ hold ∈ newer, stop ≤ hold.taken) ∧
      stop ≤ horizon ∧ freed start turn older + turn ≤ stop ∧ waits < stop ∧
      freed start turn older ≤ waits + limit + longest := by
  induction holds generalizing horizon with
  | nil =>
      rcases hnear (by simp) with hfree | hlast
      · refine ⟨[], [], horizon, rfl, by simp, le_refl _, hfree, by linarith, ?_⟩
        rw [freed]
        linarith
      · exact absurd (lt_of_le_of_lt hstart hlast) (lt_irrefl _)
  | cons newest earlier ih =>
      obtain ⟨-, hbefore, hasked, htaken, -, hearlier⟩ := id hordered
      rw [freed] at hfreed
      by_cases hsoon : newest.asked < waits + limit
      · by_cases hlast : waits < lastTurn start turn (newest :: earlier)
        · obtain ⟨newer, older, hholds, hne, hnewer, hcut⟩ := hordered.cut_of_turn hstart hlast
          obtain ⟨next, newer, rfl⟩ := List.exists_cons_of_ne_nil hne
          obtain ⟨rfl, rfl⟩ := List.cons.inj hholds
          obtain ⟨hlast', holder⟩ := hnewer newest List.mem_cons_self
          exact ⟨newest :: newer, older, _, rfl, fun hold hhold => (hnewer hold hhold).1,
            by linarith, hcut, hlast, by linarith⟩
        · have hover := hordered.released_le (hlongest newest List.mem_cons_self) hsoon hlimit.le
            (not_lt.mp hlast)
          have hfree := (hnear (by simpa using hsoon)).resolve_right hlast
          exact ⟨[], newest :: earlier, horizon, rfl, by simp, le_refl _, hfree, by linarith, hover⟩
      · obtain ⟨newer, older, stop, rfl, hnewer, huntil, hcut⟩ := ih hearlier hpaced.2
          (fun hold hhold => hlongest hold (List.mem_cons_of_mem _ hhold))
          (show freed start turn earlier ≤ newest.taken by linarith) (by linarith) (fun _ => by
            rcases hpaced.1 with hlong | hrecent
            · left
              linarith
            · right
              linarith)
        refine ⟨newest :: newer, older, stop, rfl, ?_, by linarith, hcut⟩
        intro hold hhold
        rcases List.mem_cons.mp hhold with rfl | hmem
        · exact huntil
        · exact hnewer hold hmem

/-- The first try at or after a time comes within the time between two tries. -/
theorem exists_try {tries : Nat → α} {every : α} (hstep : ∀ n, tries (n + 1) ≤ tries n + every)
    (hnever : ∀ time, ∃ n, time ≤ tries n) {time : α} (htime : tries 0 ≤ time) (hevery : 0 < every) :
    ∃ n, time ≤ tries n ∧ tries n < time + every := by
  classical
  have hfound := Nat.find_spec (hnever time)
  refine ⟨Nat.find (hnever time), hfound, ?_⟩
  cases hfirst : Nat.find (hnever time) with
  | zero => linarith
  | succ earlier =>
      have hearlier : ¬ time ≤ tries earlier := Nat.find_min (hnever time) (by omega)
      have hnext := hstep earlier
      linarith

/-- A waiter that tries again sooner than a turn lasts finds the lock free within the limit, the
longest hold and a turn. -/
theorem exists_free_try (hordered : Ordered start turn holds)
    (hpaced : Paced start turn limit holds)
    (hlongest : ∀ hold ∈ holds, hold.released - hold.taken ≤ longest) (hnonneg : 0 ≤ longest)
    (hlimit : 0 < limit) {tries : Nat → α} {every now : α}
    (hstart : start ≤ tries 0) (hstep : ∀ n, tries (n + 1) ≤ tries n + every)
    (hnever : ∀ time, ∃ n, time ≤ tries n) (hevery : 0 < every) (hturn : every ≤ turn)
    (hfreed : freed start turn holds ≤ now) (hnow : tries 0 + limit + longest + turn ≤ now) :
    ∃ n, tries n ≤ tries 0 + limit + longest + turn ∧ FreeAt holds (tries n) := by
  have hnear : (∀ newest ∈ holds.head?, newest.asked < tries 0 + limit) →
      freed start turn holds + turn ≤ now ∨ tries 0 < lastTurn start turn holds := by
    intro hsoon
    by_cases hlast : tries 0 < lastTurn start turn holds
    · exact .inr hlast
    · left
      cases holds with
      | nil =>
          rw [freed]
          linarith
      | cons newest earlier =>
          have hover := hordered.released_le (hlongest newest List.mem_cons_self)
            (hsoon newest rfl) hlimit.le (not_lt.mp hlast)
          rw [freed]
          linarith
  obtain ⟨newer, older, stop, rfl, hnewer, -, hfree, hwaits, hbound⟩ := exists_turn hordered hpaced
    hlongest hnonneg hstart hlimit (by linarith) hfreed (by linarith) hnear
  have hordered' := hordered.of_append
  -- A try in the turn: the first, or the first after the lock was released.
  have hfreeAt : ∀ time, freed start turn older ≤ time → time < stop →
      FreeAt (newer ++ older) time := by
    intro time hreleased htime hold hhold
    rcases List.mem_append.mp hhold with hmem | hmem
    · exact .inl (lt_of_lt_of_le htime (hnewer hold hmem))
    · exact .inr ((hordered'.released_le_freed hold hmem).trans hreleased)
  by_cases hcame : freed start turn older ≤ tries 0
  · exact ⟨0, by linarith, hfreeAt _ hcame hwaits⟩
  · obtain ⟨n, hafter, hbefore⟩ := exists_try hstep hnever (not_le.mp hcame).le hevery
    exact ⟨n, by linarith, hfreeAt _ hafter (by linarith)⟩

end Waiting

end SeverinoHQ.Math.Pacing
