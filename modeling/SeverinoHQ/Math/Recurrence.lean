/-
# Days that recur

What recurs is given in steps, each with the days of it, in ascending order and without end. A
search goes over the days in turn: it keeps those asked for until one is past its end, or enough
are kept, and fails on a day there is none of or that cannot be worked with.
-/

import Mathlib.Algebra.Order.Ring.Int
import Mathlib.Data.List.Nodup
import Mathlib.Data.List.Perm.Subperm
import Mathlib.Data.List.Sort

namespace SeverinoHQ.Math.Recurrence

/-- The first `limit` of the wanted days, in order. -/
structure FirstOf (wanted : Int → Prop) (limit : Nat) (days : List Int) : Prop where
  ascending : days.Pairwise (· < ·)
  sound : ∀ day ∈ days, wanted day
  length_le : days.length ≤ limit
  complete : ∀ day, wanted day → day ∉ days →
    days.length = limit ∧ ∀ other ∈ days, other < day

section FirstOf

variable {wanted other : Int → Prop} {limit : Nat} {days more : List Int}

theorem FirstOf.congr (h : FirstOf wanted limit days) (hiff : ∀ day, wanted day ↔ other day) :
    FirstOf other limit days := by
  obtain rfl : wanted = other := by
    ext day
    exact hiff day
  exact h

theorem FirstOf.subset (h : FirstOf wanted limit days) (hmore : FirstOf wanted limit more) :
    days ⊆ more := by
  intro day hday
  by_contra hnot
  obtain ⟨hlength, hbefore⟩ := hmore.complete day (h.sound day hday) hnot
  -- All the others come before it, so that with it there are too many.
  have hsub : more ⊆ days := by
    intro earlier hearlier
    by_contra hmissing
    have hlt := (h.complete earlier (hmore.sound earlier hearlier) hmissing).2 day hday
    exact lt_asymm hlt (hbefore earlier hearlier)
  have hnodup : (day :: more).Nodup :=
    List.nodup_cons.mpr ⟨hnot, hmore.ascending.imp fun hlt => hlt.ne⟩
  have hle := (hnodup.subperm (List.cons_subset.mpr ⟨hday, hsub⟩)).length_le
  have := h.length_le
  rw [List.length_cons] at hle
  omega

/-- The first of the wanted days are one list. -/
theorem FirstOf.unique (h : FirstOf wanted limit days) (hmore : FirstOf wanted limit more) :
    days = more := by
  exact List.Subset.antisymm_of_sortedLT (h.subset hmore) (hmore.subset h)
    h.ascending.sortedLT hmore.ascending.sortedLT

theorem FirstOf.nil_iff (hpos : 0 < limit) : FirstOf wanted limit [] ↔ ∀ day, ¬ wanted day := by
  constructor
  · intro h day hday
    have := (h.complete day hday List.not_mem_nil).1
    simp at this
    omega
  · intro hnone
    exact ⟨List.Pairwise.nil, by simp, by simp, fun day hday => absurd hday (hnone day)⟩

end FirstOf

/-- What a loop over days looks for. -/
structure Search where
  /-- the last day there is -/
  last : Int
  limit : Nat
  /-- the day is past the loop's end -/
  ends : Int → Bool
  /-- the day cannot be worked with -/
  fails : Int → Bool
  keeps : Int → Bool

/-- How far a loop has come. -/
inductive Walk where
  | on (found : List Int)
  | left (found : List Int)
  | failed
  deriving DecidableEq, Repr

namespace Search

variable (search : Search)

/-- The loop over some days. -/
def through : List Int → List Int → Walk
  | [], found => .on found
  | day :: days, found =>
      if search.last < day then .failed
      else if search.ends day = true ∨ search.limit ≤ found.length then .left found
      else if search.fails day then .failed
      else through days (if search.keeps day then found ++ [day] else found)

/-- The loop over the days of `fuel` steps. -/
def walk (steps : Nat → List Int) : Nat → Nat → List Int → Walk
  | 0, _, found => .on found
  | fuel + 1, index, found =>
      match search.through (steps index) found with
      | .on found => walk steps fuel (index + 1) found
      | .left found => .left found
      | .failed => .failed

/-! ## One list of days -/

/-- Days a loop went past, each before it had enough. -/
def Passed (days : List Int) : Prop :=
  ∀ before day, before ++ [day] <+: days →
    day ≤ search.last ∧ search.ends day = false ∧ search.fails day = false ∧
      (before.filter search.keeps).length < search.limit

variable {search}

theorem passed_nil : search.Passed [] := by
  intro before day hprefix
  simp at hprefix

theorem Passed.concat {days : List Int} {day : Int} (h : search.Passed days)
    (hlast : day ≤ search.last) (hends : search.ends day = false)
    (hfails : search.fails day = false)
    (hroom : (days.filter search.keeps).length < search.limit) : search.Passed (days ++ [day]) := by
  intro before other hprefix
  rcases List.prefix_concat_iff.mp hprefix with heq | hearlier
  · obtain ⟨rfl, hother⟩ := List.append_inj' heq rfl
    obtain rfl : other = day := by simpa using hother
    exact ⟨hlast, hends, hfails, hroom⟩
  · exact h before other hearlier

/-- A day a loop went past, with the days before it. -/
theorem Passed.of_mem {days : List Int} (h : search.Passed days) {day : Int} (hday : day ∈ days) :
    ∃ before, before <+: days ∧ day ≤ search.last ∧ search.ends day = false ∧
      search.fails day = false ∧ (before.filter search.keeps).length < search.limit ∧
        ∃ after, days = before ++ day :: after := by
  obtain ⟨before, after, rfl⟩ := List.append_of_mem hday
  obtain ⟨hlast, hends, hfails, hroom⟩ := h before day ⟨after, by simp⟩
  exact ⟨before, List.prefix_append _ _, hlast, hends, hfails, hroom, after, rfl⟩

theorem Passed.length_le {days : List Int} (h : search.Passed days) :
    (days.filter search.keeps).length ≤ search.limit := by
  rcases List.eq_nil_or_concat' days with rfl | ⟨before, day, rfl⟩
  · simp
  · obtain ⟨-, -, -, hroom⟩ := h before day (List.prefix_refl _)
    rw [List.filter_append, List.length_append]
    have hone : ([day].filter search.keeps).length ≤ 1 := List.length_filter_le _ _
    omega

/-- What a loop over some days comes to. -/
inductive Ended (search : Search) (days : List Int) : Walk → Prop
  | on : search.Passed days → Ended search days (.on (days.filter search.keeps))
  | left {before after : List Int} {day : Int} : days = before ++ day :: after →
      search.Passed before → day ≤ search.last →
      (search.ends day = true ∨ search.limit ≤ (before.filter search.keeps).length) →
        Ended search days (.left (before.filter search.keeps))
  | failed {before after : List Int} {day : Int} : days = before ++ day :: after →
      search.Passed before →
      (search.last < day ∨ search.ends day = false ∧ search.fails day = true ∧
        (before.filter search.keeps).length < search.limit) → Ended search days .failed

theorem ended_through {before : List Int} (h : search.Passed before) (days : List Int) :
    Ended search (before ++ days) (search.through days (before.filter search.keeps)) := by
  induction days generalizing before with
  | nil =>
      rw [List.append_nil]
      exact .on h
  | cons day days ih =>
      rw [through]
      by_cases hlast : search.last < day
      · rw [if_pos hlast]
        exact .failed rfl h (.inl hlast)
      · rw [if_neg hlast]
        by_cases hleaves : search.ends day = true ∨
            search.limit ≤ (before.filter search.keeps).length
        · rw [if_pos hleaves]
          exact .left rfl h (Int.not_lt.mp hlast) hleaves
        · rw [if_neg hleaves]
          rw [not_or, Bool.not_eq_true, Nat.not_le] at hleaves
          by_cases hfails : search.fails day = true
          · rw [if_pos hfails]
            exact .failed rfl h (.inr ⟨hleaves.1, hfails, hleaves.2⟩)
          · rw [if_neg hfails]
            have hpassed := h.concat (Int.not_lt.mp hlast) hleaves.1
              (Bool.eq_false_iff.mpr hfails) hleaves.2
            have hfound : (if search.keeps day = true then before.filter search.keeps ++ [day]
                else before.filter search.keeps) = (before ++ [day]).filter search.keeps := by
              by_cases hkeeps : search.keeps day = true
              · simp [hkeeps]
              · simp [hkeeps]
            rw [hfound]
            simpa using ih hpassed

theorem through_append (first second found : List Int) :
    search.through (first ++ second) found =
      match search.through first found with
      | .on found => search.through second found
      | .left found => .left found
      | .failed => .failed := by
  induction first generalizing found with
  | nil => rfl
  | cons day days ih =>
      rw [List.cons_append, through, through]
      split_ifs
      · rfl
      · rfl
      · rfl
      · exact ih _
      · exact ih _

end Search

/-! ## Steps without end -/

/-- The days of the first steps. -/
def upTo (steps : Nat → List Int) (count : Nat) : List Int := (List.range count).flatMap steps

/-- Days in steps: ascending, later with every step, and again within every `gap` steps. -/
structure Recurs (steps : Nat → List Int) (start : Int) (gap : Nat) : Prop where
  ascending : ∀ count, (upTo steps count).Pairwise (· < ·)
  later : ∀ index, ∀ day ∈ steps index, start + index ≤ day
  endless : ∀ index, ∃ other, index ≤ other ∧ other < index + gap ∧ steps other ≠ []

variable {steps : Nat → List Int}

theorem upTo_succ (steps : Nat → List Int) (count : Nat) :
    upTo steps (count + 1) = upTo steps count ++ steps count := by
  simp [upTo, List.range_succ]

theorem mem_upTo {count : Nat} {day : Int} :
    day ∈ upTo steps count ↔ ∃ index < count, day ∈ steps index := by
  simp [upTo]

theorem upTo_add (steps : Nat → List Int) (count more : Nat) :
    ∃ rest, upTo steps (count + more) = upTo steps count ++ rest := by
  induction more with
  | zero => exact ⟨[], by simp⟩
  | succ more ih =>
      obtain ⟨rest, hrest⟩ := ih
      exact ⟨rest ++ steps (count + more), by
        rw [← Nat.add_assoc, upTo_succ, hrest, List.append_assoc]⟩

theorem walk_upTo (search : Search) (steps : Nat → List Int) (fuel index : Nat) :
    search.through (upTo steps (index + fuel)) [] =
      match search.through (upTo steps index) [] with
      | .on found => search.walk steps fuel index found
      | .left found => .left found
      | .failed => .failed := by
  induction fuel generalizing index with
  | zero =>
      cases search.through (upTo steps index) [] with
      | on found => simp [Search.walk]
      | left found => simp
      | failed => simp
  | succ fuel ih =>
      rw [show index + (fuel + 1) = index + 1 + fuel by omega, ih (index + 1), upTo_succ,
        Search.through_append]
      cases search.through (upTo steps index) [] with
      | on found => simp only [Search.walk]
      | left found => rfl
      | failed => rfl

theorem ended_walk (search : Search) (steps : Nat → List Int) (fuel : Nat) :
    search.Ended (upTo steps fuel) (search.walk steps fuel 0 []) := by
  have hwalk := walk_upTo search steps fuel 0
  have hended := Search.ended_through (@Search.passed_nil search) (upTo steps fuel)
  simp only [Nat.zero_add, upTo, List.range_zero, List.flatMap_nil, Search.through] at hwalk
  simp only [List.nil_append, List.filter_nil, upTo] at hended
  rwa [hwalk] at hended

/-! ## What a search finds -/

/-- A day of some step. -/
def Recurring (steps : Nat → List Int) (day : Int) : Prop := ∃ index, day ∈ steps index

/-- What a search is for. -/
def Wanted (search : Search) (steps : Nat → List Int) (day : Int) : Prop :=
  Recurring steps day ∧ search.ends day = false ∧ search.keeps day = true

/-- The search ends at a day there is, with no day before it that it cannot work with. -/
def Ends (search : Search) (steps : Nat → List Int) : Prop :=
  ∃ day, Recurring steps day ∧ day ≤ search.last ∧
    (∀ other, Recurring steps other → other < day → search.fails other = false) ∧
      (search.ends day = true ∨ ∃ days : List Int, days.Pairwise (· < ·) ∧
        days.length = search.limit ∧ ∀ other ∈ days, Wanted search steps other ∧ other < day)

theorem recurring_of_split {before after : List Int} {count : Nat} {day other : Int}
    (hsplit : upTo steps count = before ++ day :: after) (hother : other ∈ before ∨ other = day) :
    Recurring steps other := by
  have hmem : other ∈ upTo steps count := by
    rw [hsplit]
    rcases hother with hother | rfl
    · exact List.mem_append_left _ hother
    · simp
  obtain ⟨index, -, hindex⟩ := mem_upTo.mp hmem
  exact ⟨index, hindex⟩

section Found

variable {search : Search} {start : Int} {gap : Nat} (hrecurs : Recurs steps start gap)

include hrecurs

/-- A day before one of the first steps' is one of theirs. -/
theorem mem_before {before after : List Int} {count : Nat} {day other : Int}
    (hsplit : upTo steps count = before ++ day :: after) (hother : Recurring steps other)
    (hlt : other < day) : other ∈ before := by
  obtain ⟨index, hindex⟩ := hother
  obtain ⟨rest, hrest⟩ := upTo_add steps count (index + 1)
  have hmem : other ∈ upTo steps (count + (index + 1)) :=
    mem_upTo.mpr ⟨index, by omega, hindex⟩
  have hascending := hrecurs.ascending (count + (index + 1))
  rw [hrest, hsplit, List.append_assoc, List.cons_append] at hmem hascending
  rw [List.pairwise_append, List.pairwise_cons] at hascending
  obtain ⟨-, ⟨hafter, -⟩, -⟩ := hascending
  rcases List.mem_append.mp hmem with hbefore | hlater
  · exact hbefore
  · rcases List.mem_cons.mp hlater with rfl | hlater
    · exact absurd hlt (lt_irrefl _)
    · exact absurd (hafter other hlater) (not_lt.mpr hlt.le)

theorem lt_of_split {before after : List Int} {count : Nat} {day other : Int}
    (hsplit : upTo steps count = before ++ day :: after) (hother : other ∈ before) :
    other < day := by
  have hascending := hrecurs.ascending count
  rw [hsplit, List.pairwise_append] at hascending
  exact hascending.2.2 other hother day List.mem_cons_self

/-- What is kept before a day is what is wanted before it. -/
theorem mem_kept_iff {before after : List Int} {count : Nat} {day : Int}
    (hsplit : upTo steps count = before ++ day :: after) (hpassed : search.Passed before)
    (other : Int) :
    other ∈ before.filter search.keeps ↔ Wanted search steps other ∧ other < day := by
  rw [List.mem_filter]
  constructor
  · rintro ⟨hother, hkeeps⟩
    obtain ⟨-, -, -, hends, -⟩ := hpassed.of_mem hother
    exact ⟨⟨recurring_of_split hsplit (.inl hother), hends, hkeeps⟩,
      lt_of_split hrecurs hsplit hother⟩
  · rintro ⟨⟨hother, -, hkeeps⟩, hlt⟩
    exact ⟨mem_before hrecurs hsplit hother hlt, hkeeps⟩

/-- No more is wanted before a day than is kept before it. -/
theorem length_le_kept {before after : List Int} {count : Nat} {day : Int}
    (hsplit : upTo steps count = before ++ day :: after) (hpassed : search.Passed before)
    {days : List Int} (hdays : days.Pairwise (· < ·))
    (hwanted : ∀ earlier ∈ days, Wanted search steps earlier ∧ earlier < day) :
    days.length ≤ (before.filter search.keeps).length := by
  have hsub : days ⊆ before.filter search.keeps := fun earlier hearlier =>
    (mem_kept_iff hrecurs hsplit hpassed earlier).mpr (hwanted earlier hearlier)
  have hnodup : days.Nodup := hdays.imp fun hlt => hlt.ne
  exact (hnodup.subperm hsub).length_le

theorem firstOf_of_left
    (hends : ∀ first second, first ≤ second → search.ends first = true → search.ends second = true)
    {fuel : Nat} {found : List Int} (h : search.walk steps fuel 0 [] = .left found) :
    FirstOf (Wanted search steps) search.limit found := by
  have hended := ended_walk search steps fuel
  rw [h] at hended
  cases hended with
  | @left before after day hsplit hpassed hlast hleaves =>
      have hascending := hrecurs.ascending fuel
      rw [hsplit, List.pairwise_append] at hascending
      refine ⟨hascending.1.filter _, fun other hother => ?_, hpassed.length_le,
        fun other hwanted hnot => ?_⟩
      · exact ((mem_kept_iff hrecurs hsplit hpassed other).mp hother).1
      · have hle : day ≤ other := by
          by_contra hlt
          exact hnot ((mem_kept_iff hrecurs hsplit hpassed other).mpr ⟨hwanted, not_le.mp hlt⟩)
        have henough : search.limit ≤ (before.filter search.keeps).length := by
          rcases hleaves with hday | henough
          · have := hends day other hle hday
            rw [hwanted.2.1] at this
            contradiction
          · exact henough
        refine ⟨Nat.le_antisymm hpassed.length_le henough, fun earlier hearlier => ?_⟩
        exact ((mem_kept_iff hrecurs hsplit hpassed earlier).mp hearlier).2.trans_le hle

/-- With steps enough for the days there are, the search does not run on. -/
theorem walk_ne_on {fuel : Nat} (hfuel : (search.last - start).toNat + 1 + gap ≤ fuel)
    (found : List Int) : search.walk steps fuel 0 [] ≠ .on found := by
  intro h
  have hended := ended_walk search steps fuel
  rw [h] at hended
  cases hended with
  | on hpassed =>
      obtain ⟨index, hle, hlt, hsome⟩ := hrecurs.endless ((search.last - start).toNat + 1)
      obtain ⟨day, hday⟩ := List.exists_mem_of_ne_nil _ hsome
      have hlater := hrecurs.later index day hday
      have hmem : day ∈ upTo steps fuel := mem_upTo.mpr ⟨index, by omega, hday⟩
      obtain ⟨-, -, hlast, -⟩ := hpassed.of_mem hmem
      omega

/-- With enough wanted before a day, the loop did not go past it. -/
theorem not_mem_of_enough {before after : List Int} {count : Nat} {day other : Int}
    (hsplit : upTo steps count = before ++ day :: after) (hpassed : search.Passed before)
    {days : List Int} (hdays : days.Pairwise (· < ·)) (hlength : days.length = search.limit)
    (hwanted : ∀ earlier ∈ days, Wanted search steps earlier ∧ earlier < other) :
    other ∉ before := by
  intro hmem
  obtain ⟨first, -, -, -, -, hroom, rest, rfl⟩ := hpassed.of_mem hmem
  rw [List.append_assoc, List.cons_append] at hsplit
  have hfirst : search.Passed first := fun earlier day hearlier =>
    hpassed earlier day (hearlier.trans (List.prefix_append _ _))
  have hle := length_le_kept hrecurs hsplit hfirst hdays hwanted
  omega

/-- Where the search can end, the loop comes to no day it fails at. -/
theorem Ends.not_failed (h : Ends search steps) {before after : List Int} {count : Nat} {day : Int}
    (hsplit : upTo steps count = before ++ day :: after) (hpassed : search.Passed before) :
    ¬ (search.last < day ∨ search.ends day = false ∧ search.fails day = true ∧
      (before.filter search.keeps).length < search.limit) := by
  obtain ⟨goal, hgoal, hlast, hworks, hleaves⟩ := h
  -- The loop did not go past the day it could end at.
  have hnot : goal ∉ before := by
    rcases hleaves with hends | ⟨days, hdays, hlength, hwanted⟩
    · intro hmem
      obtain ⟨-, -, -, hfalse, -⟩ := hpassed.of_mem hmem
      rw [hends] at hfalse
      contradiction
    · exact not_mem_of_enough hrecurs hsplit hpassed hdays hlength hwanted
  have hle : day ≤ goal := by
    by_contra hlt
    exact hnot (mem_before hrecurs hsplit hgoal (not_le.mp hlt))
  rintro (hpast | ⟨hends, hfails, hroom⟩)
  · omega
  · rcases Int.lt_or_eq_of_le hle with hlt | rfl
    · have hfalse := hworks day (recurring_of_split hsplit (.inr rfl)) hlt
      rw [hfails] at hfalse
      contradiction
    · rcases hleaves with htrue | ⟨days, hdays, hlength, hwanted⟩
      · rw [hends] at htrue
        contradiction
      · have hkept := length_le_kept hrecurs hsplit hpassed hdays hwanted
        omega

theorem left_iff {fuel : Nat} (hfuel : (search.last - start).toNat + 1 + gap ≤ fuel) :
    (∃ found, search.walk steps fuel 0 [] = .left found) ↔ Ends search steps := by
  have hended := ended_walk search steps fuel
  constructor
  · rintro ⟨found, h⟩
    rw [h] at hended
    cases hended with
    | @left before after day hsplit hpassed hlast hleaves =>
        refine ⟨day, recurring_of_split hsplit (.inr rfl), hlast,
          fun other hother hlt => ?_, hleaves.imp id fun henough => ?_⟩
        · obtain ⟨-, -, -, -, hfails, -⟩ :=
            hpassed.of_mem (mem_before hrecurs hsplit hother hlt)
          exact hfails
        · have hascending := hrecurs.ascending fuel
          rw [hsplit, List.pairwise_append] at hascending
          exact ⟨before.filter search.keeps, hascending.1.filter _,
            Nat.le_antisymm hpassed.length_le henough,
            fun other hother => (mem_kept_iff hrecurs hsplit hpassed other).mp hother⟩
  · intro hends
    cases hwalk : search.walk steps fuel 0 [] with
    | left found => exact ⟨found, rfl⟩
    | on found => exact absurd hwalk (walk_ne_on hrecurs hfuel found)
    | failed =>
        rw [hwalk] at hended
        cases hended with
        | @failed before after day hsplit hpassed hfailed =>
            exact absurd hfailed (hends.not_failed hrecurs hsplit hpassed)

end Found

end SeverinoHQ.Math.Recurrence
