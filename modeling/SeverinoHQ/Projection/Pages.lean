/-
# Following the cursors of a list

The order of a keyset as one linear order: a row's key is its values, each turned
round where its column descends, compared as lists are. The filter for the rows
past a cursor is the order's, so what is read page after page is what `Paging`
says of any order.
-/

import Mathlib.Data.List.Induction
import Mathlib.Data.List.Lex
import Mathlib.Data.Sum.Order
import SeverinoHQ.Math.Paging
import SeverinoHQ.Projection.Keyset

namespace SeverinoHQ.Projection

open SeverinoHQ.Math

variable {V : Type} [LinearOrder V]

/-! ## The order of a keyset -/

/-- A value as its column orders it. -/
def directed (descending : Bool) (value : V) : V ⊕ₗ Vᵒᵈ :=
  if descending then toLex (.inr (OrderDual.toDual value)) else toLex (.inl value)

theorem directed_lt {descending : Bool} {first second : V} :
    directed descending first < directed descending second ↔
      if descending then second < first else first < second := by
  cases descending with
  | true => simp [directed]
  | false => simp [directed]

omit [LinearOrder V] in
theorem directed_inj {descending : Bool} {first second : V} :
    directed descending first = directed descending second ↔ first = second := by
  cases descending with
  | true => simp [directed]
  | false => simp [directed]

/-- The key of a row. -/
def Model.key (model : Model) (keys : List (String × Bool)) (row : Row V) : List (V ⊕ₗ Vᵒᵈ) :=
  keys.map fun key => directed key.2 (model.value row key.1)

theorem Model.precedes_iff (model : Model) (keys : List (String × Bool)) (first second : Row V) :
    model.precedes keys first second = true ↔ model.key keys first < model.key keys second := by
  induction keys with
  | nil => simp [Model.precedes, Model.key]
  | cons key keys ih =>
      obtain ⟨name, descending⟩ := key
      simp only [Model.precedes, Bool.or_eq_true, Bool.and_eq_true, decide_eq_true_eq, ih,
        Model.key, List.map_cons, List.cons_lt_cons_iff, directed_lt, directed_inj]

theorem Model.orderBy_eq (model : Model) (keys : List (String × Bool)) (table : List (Row V)) :
    model.orderBy keys table = ordered (model.key keys) table := by
  unfold Model.orderBy ordered
  have hrel : (fun first second : Row V => model.precedes keys second first = false) =
      fun first second => model.key keys first ≤ model.key keys second := by
    funext first second
    rw [← Bool.not_eq_true, Model.precedes_iff, not_lt]
  congr

/-! ## Past a cursor -/

section Past

variable {model : Model} {row : Row V}

@[simp]
theorem Q.passes_both (first second : Q V) :
    (first.both second).passes model row = (first.passes model row && second.passes model row) := by
  cases first <;> cases second <;> simp [Q.both, Q.passes]

/-- An empty filter, which takes no part in another. -/
def Q.isAll : Q V → Bool
  | .all => true
  | _ => false

omit [LinearOrder V] in
@[simp]
theorem Q.isAll_either (first second : Q V) :
    (first.either second).isAll = (first.isAll && second.isAll) := by
  cases first <;> cases second <;> rfl

omit [LinearOrder V] in
@[simp]
theorem Q.isAll_both (first second : Q V) :
    (first.both second).isAll = (first.isAll && second.isAll) := by
  cases first <;> cases second <;> rfl

/-- A filter that says something, and lets the row pass. -/
def Q.Admits (model : Model) (row : Row V) (filter : Q V) : Prop :=
  filter.isAll = false ∧ filter.passes model row = true

theorem Q.admits_either (first second : Q V) :
    (first.either second).Admits model row ↔
      first.Admits model row ∨ second.Admits model row := by
  cases first <;> cases second <;> simp [Q.either, Q.Admits, Q.isAll, Q.passes]

omit [LinearOrder V] in
theorem isAll_pastStep (earlier : List (String × V)) (key : String × Bool) (value : V) :
    (pastStep earlier key value).isAll = false := by
  unfold pastStep
  induction earlier using List.reverseRecOn with
  | nil => rfl
  | append_singleton earlier prior ih => simp [List.foldl_append, ih]

theorem admits_pastStep (earlier : List (String × V)) (key : String × Bool) (value : V) :
    (pastStep earlier key value).Admits model row ↔
      (∀ prior ∈ earlier, model.value row prior.1 = prior.2) ∧
        directed key.2 value < directed key.2 (model.value row key.1) := by
  rw [Q.Admits, isAll_pastStep, directed_lt]
  simp only [true_and]
  unfold pastStep
  induction earlier using List.reverseRecOn with
  | nil =>
      obtain ⟨name, descending⟩ := key
      cases descending <;> simp [Q.passes]
  | append_singleton earlier prior ih =>
      simp only [List.foldl_append, List.foldl_cons, List.foldl_nil, Q.passes_both,
        Bool.and_eq_true, ih, Q.passes, decide_eq_true_eq, List.mem_append, List.mem_singleton]
      constructor
      · rintro ⟨⟨hearlier, hpast⟩, hprior⟩
        refine ⟨fun other hother => ?_, hpast⟩
        rcases hother with hother | rfl
        · exact hearlier other hother
        · exact hprior
      · rintro ⟨hall, hpast⟩
        exact ⟨⟨fun other hother => hall other (.inl hother), hpast⟩, hall prior (.inr rfl)⟩

/-- The steps of a filter past the values of a row admit what comes after it. -/
theorem admits_pastSteps (earlier : List (String × V)) (keys : List (String × Bool)) (last : Row V)
    (after : Q V) :
    (pastSteps earlier (keys.map fun key => (key, model.value last key.1)) after).Admits model
        row ↔
      after.Admits model row ∨ (∀ prior ∈ earlier, model.value row prior.1 = prior.2) ∧
        model.key keys last < model.key keys row := by
  induction keys generalizing earlier after with
  | nil => simp [pastSteps, Model.key]
  | cons key keys ih =>
      simp only [List.map_cons, pastSteps, ih, Q.admits_either, admits_pastStep, Model.key,
        List.cons_lt_cons_iff, directed_inj, List.mem_append, List.mem_singleton]
      constructor
      · rintro ((hafter | ⟨htied, hpast⟩) | ⟨htied, hrest⟩)
        · exact .inl hafter
        · exact .inr ⟨htied, .inl hpast⟩
        · refine .inr ⟨fun prior hprior => htied prior (.inl hprior), .inr ⟨?_, hrest⟩⟩
          exact (htied (key.1, model.value last key.1) (.inr rfl)).symm
      · rintro (hafter | ⟨htied, hpast | ⟨hsame, hrest⟩⟩)
        · exact .inl (.inl hafter)
        · exact .inl (.inr ⟨htied, hpast⟩)
        · refine .inr ⟨fun prior hprior => ?_, hrest⟩
          rcases hprior with hprior | rfl
          · exact htied prior hprior
          · exact hsame.symm

omit [LinearOrder V] in
theorem isAll_pastSteps (earlier : List (String × V)) (values : List ((String × Bool) × V))
    (after : Q V) : (pastSteps earlier values after).isAll = (after.isAll && values.isEmpty) := by
  induction values generalizing earlier after with
  | nil => simp [pastSteps]
  | cons value values ih => simp [pastSteps, ih, isAll_pastStep]

end Past

/-! ## One page -/

section Page

variable {scalars : Scalars V} {model : Model} {keys : List (String × Bool)}

/-- Each field reads back the values a row's cursor is made of. -/
def ReadsBack (scalars : Scalars V) (model : Model) (keys : List (String × Bool)) (row : Row V) :
    Prop :=
  ∀ key ∈ keys, scalars.toPython key.1 (cursorValue scalars (model.value row key.1)) =
    some (model.value row key.1)

omit [LinearOrder V] in
theorem cursorValues_eq {last : Row V} (hreads : ReadsBack scalars model keys last) :
    cursorValues scalars keys (keys.map fun key => cursorValue scalars (model.value last key.1)) =
      .ok (keys.map fun key => (key, model.value last key.1)) := by
  induction keys with
  | nil => rfl
  | cons key keys ih =>
      simp only [List.map_cons, cursorValues, hreads key List.mem_cons_self,
        ih fun other hother => hreads other (List.mem_cons_of_mem _ hother)]
      rfl

/-- The filter of a cursor lets through the rows after the row it was made at. -/
theorem past_positionOf {last : Row V} (hreads : ReadsBack scalars model keys last)
    (hkeys : keys ≠ []) :
    ∃ filter, past scalars keys (positionOf scalars model keys last) = .ok filter ∧
      ∀ row : Row V, filter.passes model row = true ↔
        model.key keys last < model.key keys row := by
  refine ⟨pastSteps [] (keys.map fun key => (key, model.value last key.1)) .all, ?_, fun row => ?_⟩
  · simp only [past, positionOf, Json.get?, List.find?_cons, beq_self_eq_true, String.reduceBEq,
      Option.map_some, ne_eq, not_true_eq_false, if_false, List.length_map,
      cursorValues_eq hreads]
    rfl
  · have hsays := isAll_pastSteps [] (keys.map fun key => (key, model.value last key.1)) .all
    have hadmits : Q.Admits model row _ ↔ _ := admits_pastSteps [] keys last .all
    rw [Q.Admits, hsays] at hadmits
    simpa [Q.Admits, Q.isAll, hkeys] using hadmits

/-- A cursor that was issued, at a row. -/
def cursorAt (scalars : Scalars V) (model : Model) (keys : List (String × Bool))
    (last : Option (Row V)) : Option Json :=
  last.map (positionOf scalars model keys)

theorem rowsPast_eq {table : List (Row V)} {last : Option (Row V)} (hkeys : keys ≠ [])
    (hreads : ∀ row ∈ last, ReadsBack scalars model keys row) :
    rowsPast scalars model keys table (cursorAt scalars model keys last) =
      .ok (following (model.key keys) (last.map (model.key keys)) table) := by
  cases last with
  | none => simp [cursorAt, rowsPast, following]
  | some last =>
      obtain ⟨filter, hpast, hpasses⟩ := past_positionOf (hreads last rfl) hkeys
      simp only [cursorAt, Option.map_some, rowsPast, hpast]
      refine congrArg Except.ok (List.filter_congr fun row _ => ?_)
      rw [Bool.eq_iff_iff, hpasses]
      simp

/-- One page, as any order has it: its items, and the row its cursor is made at. -/
theorem keysetPage_eq {order : List String} {table : List (Row V)} {limit : Int}
    {last : Option (Row V)} (hkeyset : model.keyset order = .ok keys) (hkeys : keys ≠ [])
    (hlimit : 1 ≤ limit) (hreads : ∀ row ∈ last, ReadsBack scalars model keys row) :
    ∃ found scope, keysetPage scalars model table order limit
          (some ⟨cursorAt scalars model keys last, false, none⟩) = .ok (found, some scope) ∧
      found.items =
        pageItems (model.key keys) table (last.map (model.key keys)) (min limit 100).toNat ∧
      ∃ next : Option (Row V), scope.after = cursorAt scalars model keys next ∧
        next.map (model.key keys) =
          pageNext (model.key keys) table (last.map (model.key keys)) (min limit 100).toNat ∧
        ∀ row ∈ next, row ∈ table := by
  have hsize : pageSize limit = .ok (min limit 100).toNat := by
    simp [pageSize, not_lt.mpr hlimit]
  generalize (min limit 100).toNat = size at hsize ⊢
  have hrows : ∀ cut : List (Row V), ((model.orderBy keys cut).take (size + 1)).take size =
      (ordered (model.key keys) cut).take size := by
    intro cut
    rw [List.take_take, Model.orderBy_eq, Nat.min_eq_left (Nat.le_succ size)]
  have hmore : ∀ cut : List (Row V),
      size < ((model.orderBy keys cut).take (size + 1)).length ↔ size < cut.length := by
    intro cut
    rw [List.length_take, Model.orderBy_eq, ordered, List.length_insertionSort]
    omega
  simp only [keysetPage, hkeyset, hsize, claimed, Option.bind_some, Bool.false_eq_true, if_false,
    rowsPast_eq hkeys hreads, hrows, hmore, bind, Except.bind, pure, Except.pure]
  refine ⟨_, _, rfl, rfl, ?_⟩
  refine ⟨if size < (following (model.key keys) (last.map (model.key keys)) table).length then
    (pageItems (model.key keys) table (last.map (model.key keys)) size).getLast? else none, ?_, ?_, ?_⟩
  · simp only [decide_eq_true_eq, cursorAt, pageItems]
    split <;> rfl
  · unfold pageNext
    split <;> rfl
  · intro row hrow
    split at hrow
    · have hitem := List.mem_of_getLast? hrow
      exact (mem_following.mp (mem_ordered.mp (List.mem_of_mem_take hitem))).1
    · cases hrow

/-- Page after page, as any order has it. -/
theorem pages_eq {order : List String} {visits : List (List (Row V) × Int)}
    {last : Option (Row V)} (hkeyset : model.keyset order = .ok keys) (hkeys : keys ≠ [])
    (hlimits : ∀ visit ∈ visits, 1 ≤ visit.2)
    (hreads : ∀ visit ∈ visits, ∀ row ∈ visit.1, ReadsBack scalars model keys row)
    (hlast : ∀ row ∈ last, ReadsBack scalars model keys row) :
    pages scalars model order (cursorAt scalars model keys last) visits =
      .ok (follow (model.key keys) (last.map (model.key keys))
        (visits.map fun visit => (visit.1, (min visit.2 100).toNat))) := by
  induction visits generalizing last with
  | nil => rfl
  | cons visit visits ih =>
      obtain ⟨table, limit⟩ := visit
      obtain ⟨found, scope, hpage, hitems, next, hafter, hnext, hmem⟩ :=
        @keysetPage_eq V _ scalars model keys order table limit last hkeyset hkeys
          (hlimits _ List.mem_cons_self) hlast
      simp only [pages, hpage, bind, Except.bind, Option.bind_some, hafter, List.map_cons, follow,
        ← hnext, ← hitems]
      cases next with
      | none => rfl
      | some next =>
          have hissued : ∀ row ∈ some next, ReadsBack scalars model keys row :=
            fun row hrow => hreads _ List.mem_cons_self row (hmem row hrow)
          have hrest := ih (fun visit hvisit => hlimits visit (List.mem_cons_of_mem _ hvisit))
            (fun visit hvisit => hreads visit (List.mem_cons_of_mem _ hvisit)) hissued
          simp only [cursorAt, Option.map_some] at hrest ⊢
          simp only [hrest]
          rfl

/-! ## Every row once -/

theorem Model.checks_eq_ok (hnull : ∀ key ∈ keys, model.null key.1 = .ok false) :
    model.checks keys = .ok () := by
  induction keys with
  | nil => rfl
  | cons key keys ih =>
      obtain ⟨name, descending⟩ := key
      simp only [Model.checks, hnull (name, descending) List.mem_cons_self, bind, Except.bind,
        Bool.false_eq_true, if_false]
      exact ih fun other hother => hnull other (List.mem_cons_of_mem _ hother)

/-- An order of columns that are never null is one a list is paged by. -/
theorem Model.keyset_eq_ok {order : List String} (hpk : model.null "pk" = .ok false)
    (hcolumns : ∀ column ∈ order, model.null (direction column).1 = .ok false) :
    model.keyset order = .ok (model.keys order) := by
  have hchecks : model.checks (model.keys order) = .ok () := by
    apply Model.checks_eq_ok
    intro key hkey
    have hordered : key ∈ order.map direction → model.null key.1 = .ok false := by
      intro hkey
      obtain ⟨column, hcolumn, rfl⟩ := List.mem_map.mp hkey
      exact hcolumns column hcolumn
    unfold Model.keys at hkey
    dsimp only at hkey
    split at hkey
    · exact hordered hkey
    · rcases List.mem_append.mp hkey with hkey | hkey
      · exact hordered hkey
      · rw [List.mem_singleton.mp hkey]
        exact hpk
  simp only [Model.keyset, hchecks, bind, Except.bind]
  rfl

/-- The primary key is one of the keys. -/
theorem Model.exists_pk_mem_keys (model : Model) (order : List String) :
    ∃ key ∈ model.keys order, key.1 = "pk" ∨ key.1 = model.pk := by
  unfold Model.keys
  dsimp only
  split
  · next hany =>
    obtain ⟨key, hkey, hpk⟩ := List.any_eq_true.mp hany
    exact ⟨key, hkey, by simpa using hpk⟩
  · exact ⟨_, List.mem_append_right _ List.mem_cons_self, .inl rfl⟩

/-- No two rows of a table have one primary key. -/
def Model.UniquePk (model : Model) (table : List (Row V)) : Prop :=
  (table.map fun row => row model.pk).Nodup

instance (table : List (Row V)) : Decidable (model.UniquePk table) :=
  inferInstanceAs (Decidable (List.Nodup _))

omit [LinearOrder V] in
theorem Model.key_pk {order : List String} {first second : Row V}
    (hkey : model.key (model.keys order) first = model.key (model.keys order) second) :
    first model.pk = second model.pk := by
  obtain ⟨key, hmem, hpk⟩ := model.exists_pk_mem_keys order
  have hvalue := directed_inj.mp (List.map_inj_left.mp hkey key hmem)
  have hname : (if key.1 = "pk" then model.pk else key.1) = model.pk := by
    rcases hpk with hpk | hpk
    · rw [if_pos hpk]
    · rw [hpk, ite_self]
  simpa only [Model.value, hname] using hvalue

omit [LinearOrder V] in
theorem Model.UniquePk.distinct {table : List (Row V)} (h : model.UniquePk table)
    (order : List String) : Distinct (model.key (model.keys order)) table := by
  have hpairs := List.pairwise_map.mp h
  apply List.pairwise_map.mpr
  exact hpairs.imp fun hne hkey => hne (Model.key_pk hkey)

/-- A row is in a list exactly once. -/
def Once (row : Row V) (items : List (Row V)) : Prop :=
  ∃ before after, items = before ++ row :: after ∧ row ∉ before ∧ row ∉ after

omit [LinearOrder V] in
open Classical in
theorem once_of_count {row : Row V} {items : List (Row V)} (h : items.count row = 1) :
    Once row items := by
  have hmem : row ∈ items := List.count_pos_iff.mp (by omega)
  obtain ⟨before, after, rfl⟩ := List.append_of_mem hmem
  rw [List.count_append, List.count_cons_self] at h
  exact ⟨before, after, rfl, List.count_eq_zero.mp (by omega), List.count_eq_zero.mp (by omega)⟩

end Page

/-- A list read to its end by its cursors, in any order of columns that are never
null and by any limits: a table that stays as it is comes whole and in order, and of
one that changes between pages every row that stays as it is comes once. -/
theorem pages_read_every_row (scalars : Scalars V) (model : Model) (order : List String)
    (hpk : model.null "pk" = .ok false)
    (hcolumns : ∀ column ∈ order, model.null (direction column).1 = .ok false)
    (visits : List (List (Row V) × Int)) (hlimits : ∀ visit ∈ visits, 1 ≤ visit.2)
    (hunique : ∀ visit ∈ visits, model.UniquePk visit.1)
    (hreads : ∀ visit ∈ visits, ∀ row ∈ visit.1, ReadsBack scalars model (model.keys order) row) :
    ∃ items finished, pages scalars model order none visits = .ok (items, finished) ∧
      (finished = true → ∀ row, (∀ visit ∈ visits, row ∈ visit.1) → Once row items) ∧
      ∀ table, (∀ visit ∈ visits, visit.1 = table) →
        (finished = true → items = model.orderBy (model.keys order) table) ∧
        (table.length < visits.length → finished = true) := by
  have hkeyset := Model.keyset_eq_ok hpk hcolumns
  have hkeys : model.keys order ≠ [] := by
    obtain ⟨key, hmem, -⟩ := model.exists_pk_mem_keys order
    exact List.ne_nil_of_mem hmem
  have hpages := @pages_eq V _ scalars model _ order visits none hkeyset hkeys hlimits hreads
    (fun _ hrow => by cases hrow)
  have hsize : ∀ visit ∈ visits, 0 < (min visit.2 100).toNat := by
    intro visit hvisit
    have := hlimits visit hvisit
    omega
  refine ⟨_, _, hpages, fun hfinished row hrow => ?_, fun table htable => ?_⟩
  · classical
    apply once_of_count
    apply follow_count _ _ hfinished _ (fun _ hbound => by cases hbound)
    · intro visit hvisit
      obtain ⟨visit, hmem, rfl⟩ := List.mem_map.mp hvisit
      exact (hunique visit hmem).distinct order
    · intro visit hvisit
      obtain ⟨visit, hmem, rfl⟩ := List.mem_map.mp hvisit
      exact hsize visit hmem
    · intro visit hvisit
      obtain ⟨visit, hmem, rfl⟩ := List.mem_map.mp hvisit
      exact hrow visit hmem
  · have hvisits : (visits.map fun visit => (visit.1, (min visit.2 100).toNat)) =
        (visits.map fun visit => (min visit.2 100).toNat).map fun size => (table, size) := by
      rw [List.map_map]
      apply List.map_congr_left
      intro visit hvisit
      simp [htable visit hvisit]
    have hall : following (model.key (model.keys order)) none table = table := by
      simp [following]
    -- With no page read there is nothing to show; else the table is one that was visited.
    rcases visits.eq_nil_or_concat with hnil | ⟨before, last, hvisited⟩
    · subst hnil
      refine ⟨fun hfinished => ?_, fun hlong => absurd hlong (Nat.not_lt_zero _)⟩
      simp [follow] at hfinished
    · have hlast : last ∈ visits := by simp [hvisited]
      have hdistinct := (hunique last hlast).distinct order
      rw [htable last hlast] at hdistinct
      rw [hvisits, Option.map_none]
      constructor
      · intro hfinished
        rw [follow_same hdistinct _ hfinished, hall, Model.orderBy_eq]
        intro size hmem
        obtain ⟨visit, hvisit, rfl⟩ := List.mem_map.mp hmem
        exact hsize visit hvisit
      · intro hlong
        apply follow_finishes hdistinct
        simpa [hall] using hlong

/-- Whole numbers, written as they are. -/
def wholeNumbers : Scalars Int where
  kind _ := .plain
  isoformat value := toString value
  asIs value := .num value
  str value := toString value
  toPython
    | _, .num value => some value
    | _, _ => none

/-- Tasks by a rank that many share. -/
def tasks : Model := ⟨"Task", "id", [("id", false), ("rank", false)]⟩

/-- A task. -/
def task (id rank : Int) : Row Int := fun name => if name = "id" then id else rank

/-- Three pages of the tasks: the first is followed by a removal of the task it stopped
at and by a new task that ranks first. -/
def taskVisits : List (List (Row Int) × Int) :=
  [([task 1 5, task 2 7, task 3 5, task 5 4], 2), ([task 1 5, task 2 7, task 4 9, task 5 4], 1),
    ([task 1 5, task 2 7, task 4 9, task 5 4], 2)]

theorem tasks_read_by_rank :
    (pages wholeNumbers tasks ["-rank"] none taskVisits).toOption.map
        (fun read => (read.1.map fun row => row "id", read.2)) = some ([2, 3, 1, 5], true) ∧
      ∃ items finished, pages wholeNumbers tasks ["-rank"] none taskVisits = .ok (items, finished) ∧
        (finished = true → ∀ row, (∀ visit ∈ taskVisits, row ∈ visit.1) → Once row items) ∧
        ∀ table, (∀ visit ∈ taskVisits, visit.1 = table) →
          (finished = true → items = tasks.orderBy (tasks.keys ["-rank"]) table) ∧
          (table.length < taskVisits.length → finished = true) := by
  refine ⟨by decide, pages_read_every_row wholeNumbers tasks ["-rank"] rfl ?_ taskVisits ?_ ?_ ?_⟩
  · decide
  · decide
  · decide
  · exact fun _ _ _ _ _ _ => rfl

end SeverinoHQ.Projection
