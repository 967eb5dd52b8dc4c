/-
# Reading a list in pages

A page is what follows a key in the order of keys, cut to a size, and where it
stops is the key of its last item when more follow. `follow` reads page after
page of a table that may be another one at each. Read to its end, it has every
item that was there throughout exactly once; over one table it is the table in
order.
-/

import Mathlib.Data.List.Sort
import Mathlib.Order.Defs.LinearOrder

namespace SeverinoHQ.Math

universe u v

variable {α : Type u} {κ : Type v} [LinearOrder κ] (key : α → κ)

/-- A table by its keys. -/
def ordered (table : List α) : List α := table.insertionSort fun first second =>
  key first ≤ key second

/-- What follows a key, or all. -/
def following (after : Option κ) (table : List α) : List α :=
  table.filter fun item => ∀ bound ∈ after, bound < key item

/-- The items of one page. -/
def pageItems (table : List α) (after : Option κ) (size : Nat) : List α :=
  (ordered key (following key after table)).take size

/-- Where a page stops, when more follow. -/
def pageNext (table : List α) (after : Option κ) (size : Nat) : Option κ :=
  if size < (following key after table).length then
    (pageItems key table after size).getLast?.map key
  else none

/-- Page after page, each with the table it is read from and its size: what was
read, and whether the last page was reached. -/
@[grind =]
def follow : Option κ → List (List α × Nat) → List α × Bool
  | _, [] => ([], false)
  | after, (table, size) :: visits =>
      match pageNext key table after size with
      | none => (pageItems key table after size, true)
      | some stop =>
          let rest := follow (some stop) visits
          (pageItems key table after size ++ rest.1, rest.2)

variable {key} {table : List α} {after : Option κ} {size : Nat} {stop : κ}

theorem mem_following {item : α} :
    item ∈ following key after table ↔ item ∈ table ∧ ∀ bound ∈ after, bound < key item := by
  simp [following]

theorem mem_ordered {item : α} : item ∈ ordered key table ↔ item ∈ table :=
  List.mem_insertionSort _

theorem ordered_pairwise (table : List α) :
    (ordered key table).Pairwise fun first second => key first ≤ key second :=
  haveI : Std.Total fun first second : α => key first ≤ key second :=
    ⟨fun first second => le_total (key first) (key second)⟩
  haveI : IsTrans α fun first second : α => key first ≤ key second :=
    ⟨fun _ _ _ hfirst hsecond => le_trans hfirst hsecond⟩
  List.pairwise_insertionSort _ table

/-- No two items of a table have one key. -/
def Distinct (key : α → κ) (table : List α) : Prop := (table.map key).Nodup

theorem Distinct.ordered_lt (hdistinct : Distinct key table) :
    (ordered key table).Pairwise fun first second => key first < key second := by
  have hnodup : ((ordered key table).map key).Nodup :=
    (((List.perm_insertionSort _ table).map key).nodup_iff).mpr hdistinct
  have hne := List.pairwise_map.mp hnodup
  exact ((ordered_pairwise table).and hne).imp fun ⟨hle, hne⟩ => lt_of_le_of_ne hle hne

theorem Distinct.past (hdistinct : Distinct key table) (after : Option κ) :
    Distinct key (following key after table) :=
  hdistinct.sublist (List.filter_sublist.map key)

/-- The items of a table in strict order are the table by its keys. -/
theorem Distinct.ordered_eq {sorted : List α} (hdistinct : Distinct key table)
    (hsorted : sorted.Pairwise fun first second => key first < key second)
    (hmem : ∀ item, item ∈ table ↔ item ∈ sorted) : ordered key table = sorted := by
  have hne : ∀ {first second : α}, key first < key second → first ≠ second :=
    fun hlt heq => hlt.ne (congrArg key heq)
  apply List.Perm.eq_of_pairwise _ hdistinct.ordered_lt hsorted
  · apply (List.perm_ext_iff_of_nodup (hdistinct.ordered_lt.imp hne) (hsorted.imp hne)).mpr
    exact fun item => mem_ordered.trans (hmem item)
  · exact fun _ _ _ _ hlt hgt => absurd hlt hgt.asymm

/-! ## One page -/

theorem pageNext_eq_none (h : pageNext key table after size = none) (hsize : 0 < size) :
    pageItems key table after size = ordered key (following key after table) := by
  unfold pageNext at h
  split at h
  · next hmore =>
    rw [Option.map_eq_none_iff, List.getLast?_eq_none_iff] at h
    have hlength := congrArg List.length h
    simp only [pageItems, List.length_take, ordered, List.length_insertionSort,
      List.length_nil] at hlength
    omega
  · next hmore =>
    apply List.take_of_length_le
    simpa [ordered] using not_lt.mp hmore

/-- A page that has a next one ends with the item it stops at. -/
theorem pageNext_eq_some (h : pageNext key table after size = some stop) :
    ∃ before last, pageItems key table after size = before ++ [last] ∧ key last = stop := by
  unfold pageNext at h
  split at h
  · rw [Option.map_eq_some_iff] at h
    obtain ⟨last, hlast, hkey⟩ := h
    obtain ⟨before, hbefore⟩ := List.getLast?_eq_some_iff.mp hlast
    exact ⟨before, last, hbefore, hkey⟩
  · cases h

/-- What a page holds is up to where it stops, and what follows in the table past it. -/
theorem Distinct.page_split (hdistinct : Distinct key table)
    (h : pageNext key table after size = some stop) :
    (∀ item ∈ pageItems key table after size, key item ≤ stop) ∧
      (∀ bound ∈ after, bound < stop) ∧
      ordered key (following key after table) = pageItems key table after size ++
        ordered key (following key (some stop) table) := by
  obtain ⟨before, last, hitems, rfl⟩ := pageNext_eq_some h
  have hsorted := (hdistinct.past after).ordered_lt
  have hsplit := List.take_append_drop size (ordered key (following key after table))
  rw [← hsplit, show List.take size _ = before ++ [last] from hitems] at hsorted
  obtain ⟨hfirst, hrest, hacross⟩ := List.pairwise_append.mp hsorted
  obtain ⟨-, -, hbefore⟩ := List.pairwise_append.mp hfirst
  have hle : ∀ item ∈ pageItems key table after size, key item ≤ key last := by
    intro item hitem
    rw [hitems] at hitem
    rcases List.mem_append.mp hitem with hitem | hitem
    · exact (hbefore item hitem last List.mem_cons_self).le
    · rw [List.mem_singleton.mp hitem]
  have hlast : last ∈ ordered key (following key after table) := by
    rw [← hsplit, show List.take size _ = before ++ [last] from hitems]
    simp
  have hlast : last ∈ following key after table := mem_ordered.mp hlast
  refine ⟨hle, (mem_following.mp hlast).2, ?_⟩
  rw [(hdistinct.past (some (key last))).ordered_eq hrest, pageItems, hsplit]
  intro item
  simp only [mem_following]
  constructor
  · rintro ⟨hitem, hpast⟩
    have hpast := hpast (key last) rfl
    have hmem : item ∈ ordered key (following key after table) := by
      rw [mem_ordered, mem_following]
      exact ⟨hitem, fun bound hbound => ((mem_following.mp hlast).2 bound hbound).trans hpast⟩
    rw [← hsplit] at hmem
    rcases List.mem_append.mp hmem with hmem | hmem
    · exact absurd hpast (hle item hmem).not_gt
    · exact hmem
  · intro hitem
    have hmem : item ∈ ordered key (following key after table) := List.mem_of_mem_drop hitem
    refine ⟨(mem_following.mp (mem_ordered.mp hmem)).1, ?_⟩
    rintro _ ⟨⟩
    exact hacross last (by simp) item hitem

/-! ## Page after page -/

/-- Read to its end, one table is read in order. -/
theorem follow_same {sizes : List Nat} (hdistinct : Distinct key table)
    (hsizes : ∀ size ∈ sizes, 0 < size)
    (hfinished : (follow key after (sizes.map fun size => (table, size))).2 = true) :
    (follow key after (sizes.map fun size => (table, size))).1 =
      ordered key (following key after table) := by
  induction sizes generalizing after with
  | nil => cases hfinished
  | cons size sizes ih =>
      simp only [List.map_cons, follow] at hfinished ⊢
      split at hfinished
      · next hnext =>
        exact pageNext_eq_none hnext (hsizes size List.mem_cons_self)
      · next stop hnext =>
        rw [(hdistinct.page_split hnext).2.2]
        exact congrArg (pageItems key table after size ++ ·)
          (ih (fun size hsize => hsizes size (List.mem_cons_of_mem _ hsize)) hfinished)

/-- One table is read to its end by one page more than it has items. -/
theorem follow_finishes {sizes : List Nat} (hdistinct : Distinct key table)
    (hlong : (following key after table).length < sizes.length) :
    (follow key after (sizes.map fun size => (table, size))).2 = true := by
  induction sizes generalizing after with
  | nil => simp at hlong
  | cons size sizes ih =>
      simp only [List.map_cons, follow]
      split
      · rfl
      · next stop hnext =>
        apply ih
        obtain ⟨before, last, hitems, -⟩ := pageNext_eq_some hnext
        have hlength := congrArg List.length (hdistinct.page_split hnext).2.2
        simp only [ordered, List.length_insertionSort, List.length_append, hitems,
          List.length_singleton] at hlength
        simp only [List.length_cons] at hlong
        omega

/-- What stops being past the cursor is not read again. -/
theorem follow_key_gt {visits : List (List α × Nat)} {bound : κ} (hbound : bound ∈ after)
    (hdistinct : ∀ visit ∈ visits, Distinct key visit.1) {item : α}
    (hitem : item ∈ (follow key after visits).1) : bound < key item := by
  induction visits generalizing after bound with
  | nil => cases hitem
  | cons visit visits ih =>
      obtain ⟨table, size⟩ := visit
      have hpage : ∀ item ∈ pageItems key table after size, bound < key item := fun item hitem =>
        (mem_following.mp (mem_ordered.mp (List.mem_of_mem_take hitem))).2 bound hbound
      simp only [follow] at hitem
      split at hitem
      · exact hpage item hitem
      · next stop hnext =>
        rcases List.mem_append.mp hitem with hitem | hitem
        · exact hpage item hitem
        · have hstop := ((hdistinct _ List.mem_cons_self).page_split hnext).2.1 bound hbound
          exact hstop.trans (ih rfl
            (fun visit hvisit => hdistinct visit (List.mem_cons_of_mem _ hvisit)) hitem)

/-- Read to its end, a table that changes has every item that was there throughout
exactly once. -/
theorem follow_count [DecidableEq α] {visits : List (List α × Nat)}
    (hdistinct : ∀ visit ∈ visits, Distinct key visit.1) (hsizes : ∀ visit ∈ visits, 0 < visit.2)
    (hfinished : (follow key after visits).2 = true) {item : α}
    (hitem : ∀ visit ∈ visits, item ∈ visit.1) (hpast : ∀ bound ∈ after, bound < key item) :
    (follow key after visits).1.count item = 1 := by
  induction visits generalizing after with
  | nil => cases hfinished
  | cons visit visits ih =>
      obtain ⟨table, size⟩ := visit
      have htable : Distinct key table := hdistinct _ List.mem_cons_self
      have hmem : item ∈ ordered key (following key after table) :=
        mem_ordered.mpr (mem_following.mpr ⟨hitem _ List.mem_cons_self, hpast⟩)
      have hnodup : (ordered key (following key after table)).Nodup :=
        (htable.past after).ordered_lt.imp fun hlt heq => hlt.ne (congrArg key heq)
      have hrest : ∀ visit ∈ visits, Distinct key visit.1 :=
        fun visit hvisit => hdistinct visit (List.mem_cons_of_mem _ hvisit)
      simp only [follow] at hfinished ⊢
      split at hfinished
      · next hnext =>
        dsimp only
        rw [pageNext_eq_none hnext (hsizes _ List.mem_cons_self)]
        exact List.count_eq_one_of_mem hnodup hmem
      · next stop hnext =>
        dsimp only
        obtain ⟨hle, -, hsplit⟩ := htable.page_split hnext
        rw [hsplit] at hmem hnodup
        rw [List.count_append]
        rcases List.mem_append.mp hmem with hmem | hmem
        · -- It is on this page, and what follows is past where the page stops.
          rw [List.count_eq_one_of_mem (List.nodup_append.mp hnodup).1 hmem,
            List.count_eq_zero.mpr]
          exact fun hagain => absurd (follow_key_gt rfl hrest hagain) (hle item hmem).not_gt
        · have hlater : stop < key item :=
            (mem_following.mp (mem_ordered.mp hmem)).2 stop rfl
          rw [List.count_eq_zero.mpr fun hpage => absurd hlater (hle item hpage).not_gt,
            Nat.zero_add]
          apply ih hrest (fun visit hvisit => hsizes visit (List.mem_cons_of_mem _ hvisit))
            hfinished (fun visit hvisit => hitem visit (List.mem_cons_of_mem _ hvisit))
          rintro _ ⟨⟩
          exact hlater

end SeverinoHQ.Math
