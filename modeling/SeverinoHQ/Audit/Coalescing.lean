/-
# Refused credentials counted into a row

A refusal of a caller nobody vouched for is counted into the row of the last minute, where there
is one, and otherwise has a row of its own. The row is found, counted on and saved in steps of
their own, so the steps of other calls come between them. The rows here are those of one surface,
source and reason, in the order of their ids; times are microseconds.
-/

import Mathlib.Algebra.BigOperators.Group.List.Basic
import Mathlib.Algebra.Order.Ring.Int
import SeverinoHQ.Math.Run

namespace SeverinoHQ.Audit.Coalescing

open SeverinoHQ.Math

/-- `COALESCE_WINDOW`. -/
def coalesceWindow : Int := 60 * 1000000

/-- A denied row: when it was written, how many calls it stands for, and when the latest came. -/
structure Row where
  createdAt : Int
  count : Int
  lastAt : Option Int
  deriving DecidableEq, Repr

/-- A write that was made: a row created at a moment, or the row at a place saved. -/
inductive Write where
  | created (now : Int)
  | saved (index : Nat)
  deriving DecidableEq, Repr

/-- Where a call of `record_denial` is: it found a row, and what it read of it, or none at the
moment it asked, either with how many writes came before its query; its write was made; or the
guard refused it. -/
inductive Call where
  | found (index : Nat) (read : Row) (since : Nat)
  | missed (asked : Int) (since : Nat)
  | written
  | refused
  deriving DecidableEq, Repr

/-- The rows, the calls, and the order in which the writes came, which nothing stores. -/
structure State where
  rows : List Row
  calls : List Call
  writes : List Write
  deriving DecidableEq, Repr

def initial : State := ⟨[], [], []⟩

/-- The newest row of the window, and its place: the query of `_coalesce`. -/
def recent (rows : List Row) (now : Int) : Option (Row × Nat) :=
  rows.zipIdx.reverse.find? fun entry => now - coalesceWindow ≤ entry.1.createdAt

/-- What the audit guard lets a denied row become: its count only grows, and its latest time only
moves forward. -/
def Row.letsBe (row : Row) (count lastAt : Int) : Bool :=
  row.count ≤ count && row.lastAt.all fun last => last ≤ lastAt

/-- A call begins by its query, at the time it asks, and ends by its write. -/
inductive Event where
  | find (now : Int)
  | write (slot : Nat) (now : Int)
  deriving DecidableEq, Repr

def step (state : State) : Event → State
  | .find now =>
      let call := match recent state.rows now with
        | none => .missed now state.writes.length
        | some (row, index) => .found index row state.writes.length
      { state with calls := state.calls ++ [call] }
  | .write slot now =>
      match state.calls[slot]? with
      | some (.missed _ _) =>
          { rows := state.rows ++ [⟨now, 1, none⟩]
            calls := state.calls.set slot .written
            writes := state.writes ++ [.created now] }
      | some (.found index read _) =>
          match state.rows[index]? with
          | none => state
          | some row =>
              if row.letsBe (read.count + 1) now then
                { rows := state.rows.set index
                    { row with count := read.count + 1, lastAt := some now }
                  calls := state.calls.set slot .written
                  writes := state.writes ++ [.saved index] }
              else { state with calls := state.calls.set slot .refused }
      | _ => state

/-! ## What the rows are to say -/

/-- Created more than a window from one another. -/
def Apart (first second : Int) : Prop :=
  first + coalesceWindow < second ∨ second + coalesceWindow < first

/-- The counts of the rows are of the calls that wrote, each once, and no two rows were created
within one window. -/
structure Counted (state : State) : Prop where
  sum_eq : (state.rows.map Row.count).sum = state.calls.count .written
  apart : (state.rows.map Row.createdAt).Pairwise Apart

/-- The guard lets the row be what the call makes of it. -/
def Call.Succeeds (rows : List Row) (now : Int) : Call → Prop
  | found index read _ => ∀ row ∈ rows[index]?, row.letsBe (read.count + 1) now = true
  | _ => True

/-- Since a call asked, nobody saved the row it found, or nobody created one within a window of the
row it creates. Only where the clock has gone back since does a row of before its query matter. -/
def Call.Spared (writes : List Write) (now : Int) : Call → Prop
  | missed asked since => ∀ other,
      .created other ∈ writes.drop since ∨ now < asked ∧ .created other ∈ writes → Apart other now
  | found index _ since => .saved index ∉ writes.drop since
  | _ => True

/-- Every write succeeds. -/
def Succeeds (state : State) : Event → Prop
  | .find _ => True
  | .write slot now => ∀ call ∈ state.calls[slot]?, call.Succeeds state.rows now

/-- No write comes between the two steps of another call that asked about the same. -/
def Spared (state : State) : Event → Prop
  | .find _ => True
  | .write slot now => ∀ call ∈ state.calls[slot]?, call.Spared state.writes now

instance (rows : List Row) (now : Int) : (call : Call) → Decidable (call.Succeeds rows now)
  | .found _ _ _ => Option.decidableForallMem _
  | .missed _ _ | .written | .refused => .isTrue trivial

instance (state : State) : (event : Event) → Decidable (Succeeds state event)
  | .find _ => .isTrue trivial
  | .write _ _ => Option.decidableForallMem _

/-! ## One step -/

theorem recent_spec {rows : List Row} {now : Int} {row : Row} {index : Nat}
    (h : recent rows now = some (row, index)) : rows[index]? = some row := by
  have hmem := List.mem_of_find?_eq_some h
  rw [List.mem_reverse] at hmem
  exact List.mem_zipIdx_iff_getElem?.mp hmem

/-- Nothing of the window was there when the query missed. -/
theorem recent_none {rows : List Row} {now : Int} (h : recent rows now = none) {row : Row}
    (hrow : row ∈ rows) : row.createdAt + coalesceWindow < now := by
  obtain ⟨index, hindex⟩ := List.mem_iff_getElem?.mp hrow
  have hnone := List.find?_eq_none.mp h (row, index)
    (List.mem_reverse.mpr (List.mem_zipIdx_iff_getElem?.mpr hindex))
  simp only [decide_eq_true_eq] at hnone
  omega

/-- The rows count every call that wrote. -/
def Complete (state : State) : Prop :=
  (state.rows.map Row.count).sum = state.calls.count .written

/-- What the row a call found is by now: its count is no lower than was read, and higher by the
saves made since while no call is lost. -/
structure Found (state : State) (index : Nat) (read : Row) (since : Nat) (row : Row) : Prop where
  at_place : state.rows[index]? = some row
  begun : since ≤ state.writes.length
  count_le : read.count ≤ row.count
  count_eq : Complete state → row.count = read.count + (state.writes.drop since).count (.saved index)

/-- What a call that missed knows: each row is older than its window, or was created since. -/
structure Missed (state : State) (asked : Int) (since : Nat) : Prop where
  begun : since ≤ state.writes.length
  older : ∀ row ∈ state.rows,
    row.createdAt + coalesceWindow < asked ∨ .created row.createdAt ∈ state.writes.drop since

/-- What the calls under way read still bounds the rows, no more is counted than the calls that
wrote, and each row was created once. -/
structure Kept (state : State) : Prop where
  found : ∀ index read since, .found index read since ∈ state.calls →
    ∃ row, Found state index read since row
  missed : ∀ asked since, .missed asked since ∈ state.calls → Missed state asked since
  created : ∀ now, .created now ∈ state.writes ↔ ∃ row ∈ state.rows, row.createdAt = now
  sum_le : (state.rows.map Row.count).sum ≤ state.calls.count .written

theorem count_set_written {calls : List Call} {slot : Nat} {call : Call}
    (h : calls[slot]? = some call) (hne : call ≠ .written) :
    (calls.set slot .written).count .written = calls.count .written + 1 := by
  obtain ⟨hslot, rfl⟩ := List.getElem?_eq_some_iff.mp h
  rw [List.count_set hslot]
  simp [hne]

/-- A call under way is none of those that wrote. -/
theorem mem_of_mem_set_written {calls : List Call} {slot : Nat} {call : Call}
    (hne : call ≠ .written) (h : call ∈ calls.set slot .written) : call ∈ calls :=
  (List.mem_or_eq_of_mem_set h).resolve_right hne

theorem sum_map_set {rows : List Row} {index : Nat} {row : Row} (new : Row)
    (h : rows[index]? = some row) :
    ((rows.set index new).map Row.count).sum =
      (rows.map Row.count).sum + (new.count - row.count) := by
  obtain ⟨hindex, rfl⟩ := List.getElem?_eq_some_iff.mp h
  rw [List.map_set, List.sum_set', dif_pos (by rw [List.length_map]; exact hindex),
    List.getElem_map]
  omega

theorem map_createdAt_set {rows : List Row} {index : Nat} {row : Row} (count : Int)
    (lastAt : Option Int) (h : rows[index]? = some row) :
    (rows.set index { row with count := count, lastAt := lastAt }).map Row.createdAt =
      rows.map Row.createdAt := by
  obtain ⟨hindex, rfl⟩ := List.getElem?_eq_some_iff.mp h
  apply List.ext_getElem (by simp)
  intro place hplace hplace'
  by_cases heq : index = place
  · subst heq
    simp
  · simp [List.getElem_set_ne heq]

/-- The query adds a call and writes nothing. -/
theorem step_find {state : State} (hkept : Kept state) (now : Int) :
    Kept (step state (.find now)) ∧
      (Counted (step state (.find now)) ↔ Counted state) := by
  have hcount : (step state (.find now)).calls.count .written = state.calls.count .written := by
    rw [step]
    cases recent state.rows now with
    | none => simp
    | some entry => simp
  have hcomplete : Complete (step state (.find now)) ↔ Complete state := by
    rw [Complete, hcount]
    rfl
  refine ⟨⟨fun index read since hfound => ?_, fun asked since hmissed => ?_, hkept.created, ?_⟩, ?_⟩
  · rcases List.mem_append.mp hfound with hmem | hnew
    · obtain ⟨row, hrow⟩ := hkept.found index read since hmem
      exact ⟨row, hrow.at_place, hrow.begun, hrow.count_le, fun h => hrow.count_eq (hcomplete.mp h)⟩
    · cases hrecent : recent state.rows now with
      | none => simp [hrecent] at hnew
      | some entry =>
          obtain ⟨row, place⟩ := entry
          simp only [hrecent, List.mem_singleton, Call.found.injEq] at hnew
          obtain ⟨rfl, rfl, rfl⟩ := hnew
          exact ⟨read, recent_spec hrecent, Nat.le_refl _, Int.le_refl _, fun _ => by simp [step]⟩
  · rcases List.mem_append.mp hmissed with hmem | hnew
    · obtain ⟨hasked, holder⟩ := hkept.missed asked since hmem
      exact ⟨hasked, holder⟩
    · cases hrecent : recent state.rows now with
      | none =>
          simp only [hrecent, List.mem_singleton, Call.missed.injEq] at hnew
          obtain ⟨rfl, rfl⟩ := hnew
          exact ⟨Nat.le_refl _, fun row hrow => .inl (recent_none hrecent hrow)⟩
      | some entry => simp [hrecent] at hnew
  · rw [hcount]
    exact hkept.sum_le
  · constructor
    · rintro ⟨hsum, hapart⟩
      rw [hcount] at hsum
      exact ⟨hsum, hapart⟩
    · rintro ⟨hsum, hapart⟩
      refine ⟨?_, hapart⟩
      rw [hcount]
      exact hsum

/-- A row is created apart from every other exactly where it is from those the query left out. -/
theorem apart_iff_spared {state : State} (hkept : Kept state) {now asked : Int} {since : Nat}
    (hmissed : Missed state asked since) :
    (∀ row ∈ state.rows, Apart row.createdAt now) ↔
      (Call.missed asked since).Spared state.writes now := by
  constructor
  · intro hapart other hother
    have hmem : .created other ∈ state.writes := hother.elim List.mem_of_mem_drop And.right
    obtain ⟨row, hrow, rfl⟩ := (hkept.created other).mp hmem
    exact hapart row hrow
  · intro hspared row hrow
    rcases hmissed.older row hrow with holder | hsince
    · rcases lt_or_ge now asked with hback | hforth
      · exact hspared _ (.inr ⟨hback, (hkept.created _).mpr ⟨row, hrow, rfl⟩⟩)
      · exact .inl (lt_of_lt_of_le holder hforth)
    · exact hspared _ (.inl hsince)

/-- A row of its own: one call and one count more. -/
theorem step_create {state : State} (hkept : Kept state) {slot since : Nat} {now asked : Int}
    (hcall : state.calls[slot]? = some (.missed asked since)) :
    Kept (step state (.write slot now)) ∧
      (Counted (step state (.write slot now)) ↔
        Counted state ∧ (Call.missed asked since).Spared state.writes now) := by
  have hstep : step state (.write slot now) =
      ⟨state.rows ++ [⟨now, 1, none⟩], state.calls.set slot .written,
        state.writes ++ [.created now]⟩ := by
    rw [step, hcall]
  have hcount := count_set_written hcall (by simp)
  have hsum : ((state.rows ++ [(⟨now, 1, none⟩ : Row)]).map Row.count).sum =
      (state.rows.map Row.count).sum + 1 := by simp
  have hcomplete : Complete ⟨state.rows ++ [⟨now, 1, none⟩], state.calls.set slot .written,
      state.writes ++ [.created now]⟩ ↔ Complete state := by
    rw [Complete, Complete, hsum, hcount]
    omega
  have hspared : (∀ row ∈ state.rows, Apart row.createdAt now) ↔
      (Call.missed asked since).Spared state.writes now :=
    apart_iff_spared hkept (hkept.missed asked since (List.mem_of_getElem? hcall))
  rw [hstep, ← hspared]
  refine ⟨⟨fun index read place hfound => ?_, fun other place hother => ?_, fun other => ?_, ?_⟩, ?_⟩
  · obtain ⟨row, hrow⟩ := hkept.found index read place (mem_of_mem_set_written (by simp) hfound)
    refine ⟨row, ?_, ?_, hrow.count_le, fun h => ?_⟩
    · have hlt := (List.getElem?_eq_some_iff.mp hrow.at_place).1
      rw [List.getElem?_append_left hlt, hrow.at_place]
    · exact Nat.le_trans hrow.begun (by simp)
    · rw [hrow.count_eq (hcomplete.mp h), List.drop_append_of_le_length hrow.begun]
      simp
  · obtain ⟨hasked, holder⟩ := hkept.missed other place (mem_of_mem_set_written (by simp) hother)
    refine ⟨Nat.le_trans hasked (by simp), fun row hrow => ?_⟩
    rw [List.drop_append_of_le_length hasked]
    rcases List.mem_append.mp hrow with hmem | hnew
    · exact (holder row hmem).imp_right (List.mem_append_left _)
    · obtain rfl := List.mem_singleton.mp hnew
      exact .inr (by simp)
  · simp [hkept.created other, or_and_right, exists_or, eq_comm]
  · have hle := hkept.sum_le
    dsimp only
    rw [hsum, hcount]
    omega
  · have happend : ((state.rows ++ [(⟨now, 1, none⟩ : Row)]).map Row.createdAt).Pairwise Apart ↔
        (state.rows.map Row.createdAt).Pairwise Apart ∧
          ∀ row ∈ state.rows, Apart row.createdAt now := by
      rw [List.map_append, List.pairwise_append]
      simp
    constructor
    · rintro ⟨hsum', hapart⟩
      obtain ⟨hbefore, hnew⟩ := happend.mp hapart
      exact ⟨⟨hcomplete.mp hsum', hbefore⟩, hnew⟩
    · rintro ⟨⟨hbefore, hapart⟩, hnew⟩
      exact ⟨hcomplete.mpr hbefore, happend.mpr ⟨hapart, hnew⟩⟩

/-- A save: one call more, and one count more exactly where nobody saved the row since. -/
theorem step_save {state : State} (hkept : Kept state) {slot index since : Nat} {now : Int}
    {read : Row} (hcall : state.calls[slot]? = some (.found index read since))
    (hsucceeds : ∀ row ∈ state.rows[index]?, row.letsBe (read.count + 1) now = true) :
    Kept (step state (.write slot now)) ∧
      (Counted (step state (.write slot now)) ↔
        Counted state ∧ (Call.found index read since).Spared state.writes now) := by
  obtain ⟨row, hread⟩ := hkept.found index read since (List.mem_of_getElem? hcall)
  have hrow := hread.at_place
  have hcountLe := hread.count_le
  have hlets := hsucceeds row hrow
  have hstep : step state (.write slot now) =
      ⟨state.rows.set index { row with count := read.count + 1, lastAt := some now },
        state.calls.set slot .written, state.writes ++ [.saved index]⟩ := by
    simp only [step, hcall, hrow, hlets, if_true]
  have hcount := count_set_written hcall (by simp)
  have hsum := sum_map_set { row with count := read.count + 1, lastAt := some now } hrow
  have htimes := map_createdAt_set (read.count + 1) (some now) hrow
  have hle := hkept.sum_le
  -- A call is lost here, or was before, unless the count is as it was read.
  have hcomplete : Complete ⟨state.rows.set index
      { row with count := read.count + 1, lastAt := some now }, state.calls.set slot .written,
      state.writes ++ [.saved index]⟩ ↔ Complete state ∧ row.count = read.count := by
    dsimp only at hsum
    rw [Complete, Complete, hsum, hcount]
    omega
  have hspared : Complete state →
      (row.count = read.count ↔ (Call.found index read since).Spared state.writes now) := by
    intro h
    rw [hread.count_eq h]
    simp [Call.Spared, List.count_eq_zero]
  rw [hstep]
  refine ⟨⟨fun place other asked hfound => ?_, fun asked place hmissed => ?_, fun other => ?_, ?_⟩, ?_⟩
  · obtain ⟨found, hfound⟩ := hkept.found place other asked (mem_of_mem_set_written (by simp) hfound)
    have hdrop := @List.drop_append_of_le_length _ _ [Write.saved index] _ hfound.begun
    by_cases heq : index = place
    · subst heq
      obtain rfl := Option.some.inj (hrow.symm.trans hfound.at_place)
      refine ⟨_, List.getElem?_set_self (List.getElem?_eq_some_iff.mp hrow).1,
        Nat.le_trans hfound.begun (by simp), ?_, fun h => ?_⟩
      · rw [Row.letsBe, Bool.and_eq_true, decide_eq_true_eq] at hlets
        exact Int.le_trans hfound.count_le hlets.1
      · obtain ⟨hbefore, hsame⟩ := hcomplete.mp h
        have heq := hfound.count_eq hbefore
        rw [hdrop, List.count_append]
        simp only [List.count_singleton_self, Nat.cast_add, Nat.cast_one]
        omega
    · refine ⟨found, by rw [List.getElem?_set_ne heq, hfound.at_place],
        Nat.le_trans hfound.begun (by simp), hfound.count_le, fun h => ?_⟩
      rw [hdrop, List.count_append, hfound.count_eq (hcomplete.mp h).1]
      simp [heq]
  · obtain ⟨hasked, holder⟩ := hkept.missed asked place (mem_of_mem_set_written (by simp) hmissed)
    refine ⟨Nat.le_trans hasked (by simp), fun other hother => ?_⟩
    rw [List.drop_append_of_le_length hasked]
    have hmem : other.createdAt ∈ state.rows.map Row.createdAt :=
      htimes ▸ List.mem_map_of_mem hother
    obtain ⟨before, hbefore, htime⟩ := List.mem_map.mp hmem
    rw [← htime]
    exact (holder before hbefore).imp_right (List.mem_append_left _)
  · have hrows : ∀ rows : List Row,
        (∃ row ∈ rows, row.createdAt = other) ↔ other ∈ rows.map Row.createdAt := by simp
    rw [hrows, htimes, ← hrows]
    simp [hkept.created other]
  · dsimp only at hsum ⊢
    rw [hsum, hcount]
    omega
  · constructor
    · rintro ⟨hsum', hapart⟩
      obtain ⟨hbefore, hsame⟩ := hcomplete.mp hsum'
      exact ⟨⟨hbefore, htimes ▸ hapart⟩, (hspared hbefore).mp hsame⟩
    · rintro ⟨⟨hbefore, hapart⟩, hnobody⟩
      exact ⟨hcomplete.mpr ⟨hbefore, (hspared hbefore).mpr hnobody⟩, by dsimp only; rw [htimes]; exact hapart⟩

theorem step_iff (state : State) (event : Event) (hkept : Kept state)
    (hsucceeds : Succeeds state event) :
    Kept (step state event) ∧
      (Counted (step state event) ↔ Counted state ∧ Spared state event) := by
  cases event with
  | find now =>
      obtain ⟨hnext, hcounted⟩ := step_find hkept now
      exact ⟨hnext, hcounted.trans (and_iff_left trivial).symm⟩
  | write slot now =>
      cases hcall : state.calls[slot]? with
      | none =>
          have hstep : step state (.write slot now) = state := by rw [step, hcall]
          rw [hstep]
          exact ⟨hkept, (and_iff_left (by simp [Spared, hcall])).symm⟩
      | some call =>
          have hspared : Spared state (.write slot now) ↔ call.Spared state.writes now := by
            simp [Spared, hcall]
          rw [hspared]
          cases call with
          | missed asked since => exact step_create hkept hcall
          | found index read since => exact step_save hkept hcall (hsucceeds _ hcall)
          | written =>
              have hstep : step state (.write slot now) = state := by rw [step, hcall]
              rw [hstep]
              exact ⟨hkept, (and_iff_left trivial).symm⟩
          | refused =>
              have hstep : step state (.write slot now) = state := by rw [step, hcall]
              rw [hstep]
              exact ⟨hkept, (and_iff_left trivial).symm⟩

/-! ## Every interleaving -/

/-- However the steps of the calls interleave, every write succeeding, the rows count the calls
exactly where every step is spared. -/
theorem run_counted_iff (events : List Event) (hsucceeds : Meets step Succeeds initial events) :
    Counted (run step initial events) ↔ Meets step Spared initial events := by
  have hkept : Kept initial := by constructor <;> simp [initial]
  have hcounted : Counted initial := ⟨by simp [initial], by simp [initial]⟩
  exact (run_iff_meets Kept Counted step_iff hkept hsucceeds).trans (and_iff_right hcounted)

/-- A call that runs with no other step between its two is spared, if the clock does not go
back. -/
theorem spared_of_alone {state : State} {now later : Int} (hlater : now ≤ later) :
    Spared (step state (.find now)) (.write state.calls.length later) := by
  intro call hcall
  cases hrecent : recent state.rows now with
  | none =>
      obtain rfl : Call.missed now state.writes.length = call := by simpa [step, hrecent] using hcall
      rintro other (hsince | ⟨hback, -⟩)
      · simp [step] at hsince
      · omega
  | some entry =>
      obtain rfl : Call.found entry.2 entry.1 state.writes.length = call := by
        simpa [step, hrecent] using hcall
      simp [Call.Spared, step]

/-- Two calls that both read the count 1 both save 2: three calls are counted as two. -/
theorem not_counted_twice :
    Meets step Succeeds initial [.find 0, .write 0 1, .find 2, .find 3, .write 1 4, .write 2 5] ∧
      ¬ Counted (run step initial
        [.find 0, .write 0 1, .find 2, .find 3, .write 1 4, .write 2 5]) := by
  refine ⟨by decide, fun hcounted => ?_⟩
  exact absurd hcounted.sum_eq (by decide)

/-- Two calls in turn, and one when the window is over. -/
theorem run_counted_iff_turns :
    Counted (run step initial [.find 0, .write 0 1, .find 2, .write 1 3, .find 60000002,
        .write 2 60000003]) ↔
      Meets step Spared initial [.find 0, .write 0 1, .find 2, .write 1 3, .find 60000002,
        .write 2 60000003] :=
  run_counted_iff _ (by decide)

end SeverinoHQ.Audit.Coalescing
