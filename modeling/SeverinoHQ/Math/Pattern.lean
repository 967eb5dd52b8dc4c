/-
# Patterns, as a backtracking matcher tries them

A pattern is matched at the start of a text. What is left of the text is listed in the
order a backtracking matcher tries it, so the first of the list is the match it finds.
Which texts a pattern accepts does not depend on that order.
-/

import Mathlib.Data.List.Basic

namespace SeverinoHQ.Math

/-- A pattern over the letters of a text. -/
inductive Pattern where
  | letter (among : Char → Bool)
  /-- `[…]{least,}`: as many letters as there are. -/
  | many (among : Char → Bool) (least : Nat)
  /-- `[…]*?`: as few letters as will do. -/
  | few (among : Char → Bool)
  | seq (first second : Pattern)
  | alt (first second : Pattern)
  | blank

namespace Pattern

/-- These letters, one after the other. -/
def word : List Char → Pattern
  | [] => blank
  | char :: chars => seq (letter (· == char)) (word chars)

/-- `(…)?`. -/
def opt (pattern : Pattern) : Pattern := alt pattern blank

/-- What is left after none, one, two and more letters of a kind. -/
def past (among : Char → Bool) : List Char → List (List Char)
  | [] => [[]]
  | char :: text => (char :: text) :: if among char then past among text else []

/-- What a match at the start may leave of a text, in the order it is tried. -/
def left : Pattern → List Char → List (List Char)
  | letter _, [] => []
  | letter among, char :: text => if among char then [text] else []
  | many among least, text => ((past among text).drop least).reverse
  | few among, text => past among text
  | seq first second, text => (first.left text).flatMap second.left
  | alt first second, text => first.left text ++ second.left text
  | blank, text => [text]

/-- The texts a pattern accepts. -/
def Accepts : Pattern → List Char → Prop
  | letter among, text => ∃ char, text = [char] ∧ among char = true
  | many among least, text => least ≤ text.length ∧ ∀ char ∈ text, among char = true
  | few among, text => ∀ char ∈ text, among char = true
  | seq first second, text => ∃ start rest, text = start ++ rest ∧ first.Accepts start ∧
      second.Accepts rest
  | alt first second, text => first.Accepts text ∨ second.Accepts text
  | blank, text => text = []

/-! ## What is left -/

theorem mem_drop_past {among : Char → Bool} {text rest : List Char} {least : Nat} :
    rest ∈ (past among text).drop least ↔
      ∃ taken, text = taken ++ rest ∧ least ≤ taken.length ∧ ∀ char ∈ taken, among char = true := by
  induction text generalizing least with
  | nil =>
      cases least with
      | zero =>
          simp only [past, List.drop_zero, List.mem_singleton, Nat.zero_le, true_and]
          constructor
          · rintro rfl
            exact ⟨[], rfl, by simp⟩
          · rintro ⟨taken, htaken, -⟩
            exact (List.append_eq_nil_iff.mp htaken.symm).2
      | succ least =>
          simp only [past, List.drop_succ_cons, List.drop_nil, List.not_mem_nil, false_iff]
          rintro ⟨taken, htaken, hleast, -⟩
          have hnil := (List.append_eq_nil_iff.mp htaken.symm).1
          simp [hnil] at hleast
  | cons char text ih =>
      -- one letter more is taken where the rest of them is
      have hlater : ∀ {least : Nat}, rest ∈ (if among char then past among text else []).drop least ↔
          ∃ taken, char :: text = (char :: taken) ++ rest ∧ least ≤ taken.length ∧
            ∀ other ∈ char :: taken, among other = true := by
        intro least
        by_cases hchar : among char = true
        · rw [if_pos hchar, ih]
          simp only [List.cons_append, List.cons.injEq, true_and, List.forall_mem_cons, hchar]
        · simp only [if_neg hchar, List.drop_nil, List.not_mem_nil, false_iff]
          rintro ⟨taken, -, -, hall⟩
          exact hchar (hall char List.mem_cons_self)
      cases least with
      | succ least =>
          rw [past, List.drop_succ_cons, hlater]
          constructor
          · rintro ⟨taken, htaken, hleast, hall⟩
            exact ⟨char :: taken, htaken, by simpa using hleast, hall⟩
          · rintro ⟨taken, htaken, hleast, hall⟩
            cases taken with
            | nil => simp at hleast
            | cons other taken =>
                obtain rfl : char = other := (List.cons.inj htaken).1
                exact ⟨taken, htaken, by simpa using hleast, hall⟩
      | zero =>
          have hnext := @hlater 0
          rw [List.drop_zero] at hnext
          rw [List.drop_zero, past, List.mem_cons, hnext]
          constructor
          · rintro (rfl | ⟨taken, htaken, -, hall⟩)
            · exact ⟨[], rfl, by simp, by simp⟩
            · exact ⟨char :: taken, htaken, by simp, hall⟩
          · rintro ⟨taken, htaken, -, hall⟩
            cases taken with
            | nil => exact Or.inl htaken.symm
            | cons other taken =>
                obtain rfl : char = other := (List.cons.inj htaken).1
                exact Or.inr ⟨taken, htaken, by simp, hall⟩

/-- A text may be left exactly when what comes before it is accepted. -/
theorem mem_left {pattern : Pattern} {text rest : List Char} :
    rest ∈ pattern.left text ↔ ∃ taken, text = taken ++ rest ∧ pattern.Accepts taken := by
  induction pattern generalizing text rest with
  | letter among =>
      cases text with
      | nil => simp [left, Accepts]
      | cons char text =>
          by_cases hchar : among char = true
          · simp only [left, if_pos hchar, List.mem_singleton, Accepts]
            constructor
            · rintro rfl
              exact ⟨[char], rfl, char, rfl, hchar⟩
            · rintro ⟨_, htext, other, rfl, -⟩
              exact (List.cons.inj htext).2.symm
          · simp only [left, if_neg hchar, List.not_mem_nil, false_iff, Accepts]
            rintro ⟨_, htext, other, rfl, hother⟩
            obtain rfl : char = other := (List.cons.inj htext).1
            exact hchar hother
  | many among least => rw [left, List.mem_reverse, mem_drop_past]; rfl
  | few among =>
      have hpast := @mem_drop_past among text rest 0
      rw [List.drop_zero] at hpast
      simpa [left, Accepts] using hpast
  | seq first second ihFirst ihSecond =>
      simp only [left, List.mem_flatMap, ihFirst, ihSecond, Accepts]
      constructor
      · rintro ⟨_, ⟨start, rfl, hfirst⟩, later, rfl, hsecond⟩
        exact ⟨start ++ later, by simp, start, later, rfl, hfirst, hsecond⟩
      · rintro ⟨_, rfl, start, later, rfl, hfirst, hsecond⟩
        exact ⟨later ++ rest, ⟨start, by simp, hfirst⟩, later, rfl, hsecond⟩
  | alt first second ihFirst ihSecond =>
      simp only [left, List.mem_append, ihFirst, ihSecond, Accepts]
      constructor
      · rintro (⟨taken, htaken, h⟩ | ⟨taken, htaken, h⟩)
        · exact ⟨taken, htaken, Or.inl h⟩
        · exact ⟨taken, htaken, Or.inr h⟩
      · rintro ⟨taken, htaken, h | h⟩
        · exact Or.inl ⟨taken, htaken, h⟩
        · exact Or.inr ⟨taken, htaken, h⟩
  | blank =>
      simp only [left, List.mem_singleton, Accepts]
      constructor
      · rintro rfl
        exact ⟨[], rfl, rfl⟩
      · rintro ⟨_, htext, rfl⟩
        exact htext.symm

/-- The pattern matches at the start of a text. -/
def Starts (pattern : Pattern) (text : List Char) : Prop :=
  ∃ taken, taken <+: text ∧ pattern.Accepts taken

theorem left_ne_nil {pattern : Pattern} {text : List Char} :
    pattern.left text ≠ [] ↔ pattern.Starts text := by
  constructor
  · intro hne
    obtain ⟨rest, hrest⟩ := List.exists_mem_of_ne_nil _ hne
    obtain ⟨taken, rfl, h⟩ := mem_left.mp hrest
    exact ⟨taken, List.prefix_append taken rest, h⟩
  · rintro ⟨taken, ⟨rest, rfl⟩, h⟩
    exact List.ne_nil_of_mem (mem_left.mpr ⟨taken, rfl, h⟩)

theorem accepts_word {chars text : List Char} : (word chars).Accepts text ↔ text = chars := by
  induction chars generalizing text with
  | nil => rfl
  | cons char chars ih =>
      simp only [word, Accepts, ih, beq_iff_eq]
      constructor
      · rintro ⟨_, _, rfl, ⟨_, rfl, rfl⟩, rfl⟩
        rfl
      · rintro rfl
        exact ⟨[char], chars, rfl, ⟨char, rfl, rfl⟩, rfl⟩

/-- A pattern that takes no letter of this kind. -/
def avoids (mark : Char) : Pattern → Bool
  | letter among => !among mark
  | many among _ => !among mark
  | few among => !among mark
  | seq first second => first.avoids mark && second.avoids mark
  | alt first second => first.avoids mark && second.avoids mark
  | blank => true

theorem not_mem_of_avoids {pattern : Pattern} {mark : Char} {text : List Char}
    (havoids : pattern.avoids mark = true) (h : pattern.Accepts text) : mark ∉ text := by
  induction pattern generalizing text with
  | letter among =>
      obtain ⟨char, rfl, hchar⟩ := h
      rw [avoids, Bool.not_eq_true'] at havoids
      rw [List.mem_singleton]
      rintro rfl
      simp [hchar] at havoids
  | many among least =>
      rw [avoids, Bool.not_eq_true'] at havoids
      exact fun hmem => by simp [h.2 mark hmem] at havoids
  | few among =>
      rw [avoids, Bool.not_eq_true'] at havoids
      exact fun hmem => by simp [h mark hmem] at havoids
  | seq first second ihFirst ihSecond =>
      rw [avoids, Bool.and_eq_true] at havoids
      obtain ⟨start, rest, rfl, hfirst, hsecond⟩ := h
      rw [List.mem_append, not_or]
      exact ⟨ihFirst havoids.1 hfirst, ihSecond havoids.2 hsecond⟩
  | alt first second ihFirst ihSecond =>
      rw [avoids, Bool.and_eq_true] at havoids
      rcases h with h | h
      · exact ihFirst havoids.1 h
      · exact ihSecond havoids.2 h
  | blank =>
      obtain rfl : text = [] := h
      simp

theorem starts_alt {first second : Pattern} {text : List Char} :
    (alt first second).Starts text ↔ first.Starts text ∨ second.Starts text := by
  constructor
  · rintro ⟨taken, htaken, h | h⟩
    · exact Or.inl ⟨taken, htaken, h⟩
    · exact Or.inr ⟨taken, htaken, h⟩
  · rintro (⟨taken, htaken, h⟩ | ⟨taken, htaken, h⟩)
    · exact ⟨taken, htaken, Or.inl h⟩
    · exact ⟨taken, htaken, Or.inr h⟩

/-- A text that starts with a word starts with its first letter. -/
theorem Starts.exists_cons {char : Char} {chars text : List Char} {rest : Pattern}
    (h : (seq (word (char :: chars)) rest).Starts text) : ∃ left, text = char :: left := by
  obtain ⟨_, ⟨left, rfl⟩, start, later, rfl, hword, -⟩ := h
  rw [accepts_word] at hword
  subst hword
  exact ⟨chars ++ later ++ left, by simp⟩

/-! ## Where a match ends -/

/-- The match that is found leaves no letter of a kind to follow it. -/
def Greedy (pattern : Pattern) (among : Char → Bool) : Prop :=
  ∀ text char rest, (pattern.left text).head? = some (char :: rest) → among char = false

theorem getLast?_past (among : Char → Bool) (text : List Char) :
    (past among text).getLast? = some (text.dropWhile among) := by
  induction text with
  | nil => rfl
  | cons char text ih =>
      by_cases hchar : among char = true
      · rw [past, if_pos hchar, List.dropWhile_cons_of_pos hchar, ← ih]
        cases hpast : past among text with
        | nil => simp [hpast] at ih
        | cons first others => rfl
      · rw [past, if_neg hchar, List.dropWhile_cons_of_neg hchar]
        rfl

theorem greedy_many {among kind : Char → Bool} {least : Nat}
    (hkind : ∀ char, kind char = true → among char = true) : (many among least).Greedy kind := by
  intro text char rest h
  rw [left, List.head?_reverse] at h
  have hlast : (past among text).getLast? = some (char :: rest) := by
    rw [List.getLast?_drop] at h
    split at h
    · cases h
    · exact h
  rw [getLast?_past] at hlast
  by_contra hchar
  have hhead := List.head?_dropWhile_not among text
  rw [Option.some.inj hlast] at hhead
  simp [hkind char (by simpa using hchar)] at hhead

theorem exists_of_head?_seq {first second : Pattern} {text rest : List Char}
    (h : ((seq first second).left text).head? = some rest) :
    ∃ between ∈ first.left text, (second.left between).head? = some rest := by
  rw [left, List.head?_flatMap] at h
  exact List.exists_of_findSome?_eq_some h

theorem of_head?_alt {first second : Pattern} {text rest : List Char}
    (h : ((alt first second).left text).head? = some rest) :
    (first.left text).head? = some rest ∨ (second.left text).head? = some rest := by
  rw [left, List.head?_append] at h
  cases hfound : (first.left text).head? with
  | none => exact Or.inr (by simpa [hfound] using h)
  | some found => exact Or.inl (by simpa [hfound] using h)

theorem Greedy.seq {first second : Pattern} {kind : Char → Bool} (h : second.Greedy kind) :
    (first.seq second).Greedy kind := by
  intro text char rest hhead
  obtain ⟨between, -, hbetween⟩ := exists_of_head?_seq hhead
  exact h between char rest hbetween

theorem Greedy.alt {first second : Pattern} {kind : Char → Bool} (hfirst : first.Greedy kind)
    (hsecond : second.Greedy kind) : (first.alt second).Greedy kind := by
  intro text char rest hhead
  rcases of_head?_alt hhead with hfound | hfound
  · exact hfirst text char rest hfound
  · exact hsecond text char rest hfound

end Pattern

end SeverinoHQ.Math
